import IncrementalFrontend.Frontend.Expression
import IncrementalFrontend.Parser.Text
import IncrementalFrontend.Text.Quoted
import IncrementalFrontend.Types.Composite

/-!
The queries of the front end, their values, and what they ask of the world: names, files, the parser
and the scripts.
-/
namespace IncrementalFrontend

structure StringKey where
  label : Name
  parent : Name
  text : String
deriving DecidableEq, Repr

abbrev FileContents := Except String String

namespace Frontend

inductive Query where
  | scripted (kind : ScriptKind) (key : String)
  | fileText (path : Name)
  | parseFile (key : FileKey)
  | parseString (key : StringKey)
  | linkage (key : DeclarationKey)
  | composite (type : Composite)
deriving DecidableEq

abbrev Query.Value : Query → Type
  | .scripted .. => Int64
  | .fileText _ => FileContents
  | .parseFile _ | .parseString _ => SyntaxTree
  | .linkage _ => Linkage
  | .composite _ => Composite

namespace Query

def label : Query → String
  | scripted kind key => kind.text ++ "(" ++ Text.quote key ++ ")"
  | fileText path => s!"FileText({path.label})"
  | parseFile key => s!"ParseFile({key.label})"
  | parseString key =>
    s!"ParseString(StringKey \x7b label: {key.label.label}, " ++
      s!"parent_symbol_path: {key.parent.label}, len: {key.text.utf8ByteSize} \x7d)"
  | linkage key => s!"DeclLinkage({key.label})"
  | composite type => s!"CompositeType({type.label})"

def references : Query → List TypeId
  | composite type => type.mentioned
  | _ => []

def isVolatile : Query → Bool
  | scripted .volatile _ => true
  | fileText _ => true
  | _ => false

/-- Equal values are unchanged; for approximate scripts, close ones are too. -/
def isUnchanged : (query : Query) → (old new : query.Value) → Bool
  | scripted .approximate _, old, new => Script.isClose old new
  | scripted .number _, old, new => old == new
  | scripted .node _, old, new => old == new
  | scripted .volatile _, old, new => old == new
  | fileText _, .ok old, .ok new => old == new
  | fileText _, .error old, .error new => old == new
  | fileText _, _, _ => false
  | parseFile _, old, new => old == new
  | parseString _, old, new => old == new
  | linkage _, old, new => old == new
  | composite _, old, new => old == new

end Query

inductive Request where
  | intern (text : String)
  | lookup (name : Name)
  | read (path : String)
  | unit (path parent : Name)
  | parse (unit : SourceUnit) (text : String)
  | external (key : String)
  | start (kind : ScriptKind) (key : String)

abbrev Request.Reply : Request → Type
  | .intern _ => Name
  | .lookup _ => String
  | .read _ => FileContents
  | .unit .. => SourceUnit
  | .parse .. => ParsedText
  | .external _ => Int64
  | .start .. => Script

/-- What queries may ask for and what may change outside the engine. -/
structure World where
  names : Interner
  files : String → FileContents
  externals : List (String × Int64)
  scripts : List ((ScriptKind × String) × Script)
  started : List (ScriptKind × String)

namespace World

def start (files : String → FileContents) : World :=
  ⟨.fresh, files, [], [], []⟩

def script (world : World) (kind : ScriptKind) (key : String) : Script :=
  ((world.scripts.find? (·.1 == (kind, key))).map (·.2)).getD default

def scriptSize (world : World) : Nat :=
  world.scripts.foldr (fun (_, script) size => script.size + size) 0

def serve : (request : Request) → World → request.Reply × World
  | .intern text, world =>
    let (name, names) := world.names.intern text
    (name, { world with names })
  | .lookup name, world => (world.names.lookup name, world)
  | .read path, world => (world.files path, world)
  | .unit path parent, world =>
    let (unit, names) := SourceUnit.ofPath path parent world.names
    (unit, { world with names })
  | .parse unit text, world =>
    let (parsed, names) := unit.parse text world.names
    (parsed, { world with names })
  | .external key, world =>
    (((world.externals.find? (·.1 == key)).map (·.2)).getD 0, world)
  | .start kind key, world =>
    (world.script kind key, { world with started := world.started ++ [(kind, key)] })

end World

def signature : Signature where
  Query := Query
  Value := Query.Value
  Request := Request
  Reply := Request.Reply
  World := World
  decideQuery := inferInstance

end Frontend

end IncrementalFrontend
