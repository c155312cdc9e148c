import IncrementalFrontend.Frontend.Rules
import IncrementalFrontend.Incremental.Request
import IncrementalFrontend.Incremental.Revise

/-!
Sessions of the front end: requests from outside, and changes between them.
-/
namespace IncrementalFrontend

abbrev Session := Context Frontend.signature

namespace Session

open Frontend (Query World rules signature)

def start (files : String → FileContents) (collectsOnAdvance : Bool) : Session :=
  Context.start (S := signature) (World.start files) collectsOnAdvance

def updateWorld (session : Session) (change : World → World) : Session :=
  { session with world := change session.world }

def names (session : Session) : Interner :=
  session.world.names

def intern (session : Session) (text : String) : Name × Session :=
  let (name, names) := session.names.intern text
  (name, session.updateWorld fun world => { world with names })

/-- More than the number of queries that can be in flight at once. They all differ, and each is
requested, cached, or mentioned by a script; no mention stands for more than four queries. -/
def depthBound (session : Session) : Nat :=
  session.cache.slots.size + 4 * World.scriptSize session.world + 8

def request (session : Session) (query : Query) :
    Except QueryError (Shared query.Value) × Session :=
  ((Run.request (S := signature) rules session.depthBound query).run session).getD
    (.error .stackMismatch, session)

def set (session : Session) (query : Query) (value : query.Value) : Revision × Session :=
  Context.setInput (S := signature) rules session query value

def advance (session : Session) : Session :=
  Context.advance (S := signature) rules session

def collectGarbage (session : Session) : Nat × Session :=
  Context.collectGarbage (S := signature) rules session

def summary? (session : Session) (query : Query) : Option Context.Summary :=
  Context.summary? (S := signature) rules session query

def parseFile (session : Session) (key : FileKey) : Except QueryError (Shared SyntaxTree) × Session :=
  session.request (.parseFile key)

def composite (session : Session) (kind : CompositeKind) (declaration : DeclarationKey)
    (name : Name) (generic : Option TypeId) (substitutions : Substitutions) :
    Except QueryError (Shared Composite) × Session :=
  match session.request (.linkage declaration) with
  | (.error error, session) => (.error error, session)
  | (.ok linkage, session) =>
    session.request (.composite ⟨kind, declaration, name, generic, substitutions, linkage.value⟩)

def type? (session : Session) (type : TypeId) : Option Composite :=
  session.cache.liveSlots.findSome? fun slot =>
    (session.cache.memo? slot).bind fun
      | ⟨.composite _, entry⟩ =>
        entry.value.bind fun shared =>
          if shared.identity = type then some shared.value else none
      | _ => none

end Session

end IncrementalFrontend
