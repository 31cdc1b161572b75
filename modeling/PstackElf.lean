import PstackElf.Defs.Reader
import PstackElf.Defs.Records
import PstackElf.Defs.Section
import PstackElf.Defs.Object
import PstackElf.Defs.Image
import PstackElf.Defs.Hash
import PstackElf.Defs.Notes
import PstackElf.Defs.Symbols
import PstackElf.Defs.Debug
import PstackElf.Defs.Versions
import PstackElf.Defs.Symtab
import PstackElf.Defs.Queries
import PstackElf.Hash.Gnu
import PstackElf.Hash.SysV
import PstackElf.Hash.SysVTable
import PstackElf.Hash.Dynamic
import PstackElf.Object.Segments
import PstackElf.Object.SectionIo
import PstackElf.Object.Construct
import PstackElf.Object.Constructed
import PstackElf.Object.Notes
import PstackElf.Object.NoteLoop
import PstackElf.Object.Symbols
import PstackElf.Object.Debug
import PstackElf.Object.BuildId
import PstackElf.Object.Versions
import PstackElf.Object.Symtab
import PstackElf.Object.Queries
import PstackElf.Object.Run
import PstackElf.Object.Lookup
