import TinyFs.Model.Api
import TinyFs.ParentLinks
import TinyFs.BlockSet
import TinyFs.Coverage
import TinyFs.MmcAddress
import TinyFs.StartUp
import TinyFs.StaleError
import TinyFs.FreshVolume
import TinyFs.EmptyFile
import TinyFs.ZxNames
import TinyFs.Recovery
import TinyFs.CursorRuns
import TinyFs.EmptyWrite
import TinyFs.EmptyDirs
import TinyFs.CardAnswers
import TinyFs.HandleTable
import TinyFs.UsageCount
import TinyFs.CreateFull
import TinyFs.ReadFile
import TinyFs.TwoReaders
import TinyFs.TravelPath
import TinyFs.Truncate
import TinyFs.WriteCount
import TinyFs.FuseRuns
import TinyFs.Lifetime
import TinyFs.CardTransfers
import TinyFs.Descriptors
