import Ladybone.AK.MemMem
import Ladybone.AsmIntGen.Paths
import Ladybone.Assembler.Correctness
import Ladybone.BytecodeCache.Soundness
import Ladybone.Cookies.Retrieval
import Ladybone.DNS.Decompression
import Ladybone.DNS.Soundness
import Ladybone.GC.Exactness
import Ladybone.Http.CacheIndex
import Ladybone.Http.Directives
import Ladybone.IndexedDB.Cursor
import Ladybone.IndexedDB.Integrity
import Ladybone.IndexedDB.KeyGenerator
import Ladybone.IndexedDB.Versions
import Ladybone.Ipc.Delivery
import Ladybone.Media.Stream
import Ladybone.Media.VariableSize
import Ladybone.Regex.Loops
import Ladybone.Regex.Pool
import Ladybone.Regex.Ranges
import Ladybone.SubresourceIntegrity.Rule
import Ladybone.Temporal.Rounding
import Ladybone.URL.Search
import Ladybone.Wasm.Control.Exact
import Ladybone.Wasm.MemoryExact
