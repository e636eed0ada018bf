import TaggedSql.Grammar.Statement

/-!
# Sessions

A session reads statements from one source, one call after the other. A call goes on where the last
one stopped, also after a failure; the nodes of a statement that failed stay in the arena, and the
next tree of the session begins with them. New settings lead back to the beginning of the source.

`parse` and `parseScript` are the first call of a new session.
-/

namespace TaggedSql

/-- A source that is being read, with the settings and what has been read so far. -/
structure Session where
  source : String
  settings : Settings
  state : ParseState
  deriving DecidableEq, Repr

namespace Session

/-- A session at the beginning of a source. -/
def start (settings : Settings) (source : String) : Session :=
  ⟨source, settings, ⟨Stream.ofSource settings.overflow source, {}⟩⟩

/-- Goes back to the beginning of the source with new settings; the arena is kept. -/
def configure (s : Session) (settings : Settings) : Session :=
  { s with
    settings := settings
    state := { s.state with stream := Stream.ofSource settings.overflow s.source } }

/-- Applies a rule to the rest of the source. -/
def run {α : Type} (s : Session) (rule : Rule α) : Except Failure α × Session :=
  match rule s.state with
  | .ok a state => (.ok a, { s with state })
  | .error e state => (.error e, { s with state })

/-- Reads a single statement up to the end of the source. -/
def statement (s : Session) : Except Failure Tree × Session :=
  s.run (Statement.single s.settings s.source)

/-- Reads a script up to the end of the source. -/
def statements (s : Session) : Except Failure (List Tree) × Session :=
  s.run (Statement.script s.settings s.source)

end Session

/-- Reads a source that is a single statement. -/
def parse (settings : Settings) (source : String) : Except Failure Tree :=
  (Session.start settings source).statement.1

/-- Reads a source that is a script of statements. -/
def parseScript (settings : Settings) (source : String) : Except Failure (List Tree) :=
  (Session.start settings source).statements.1

end TaggedSql
