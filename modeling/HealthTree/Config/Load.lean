import HealthTree.Config.Decode
import HealthTree.Config.Validate
import HealthTree.Toml.Reader

/-!
# Configurations loaded from text

A configuration is accepted if its text is TOML, its data has the right shape and nothing is wrong
with it. `LoadError` says which of these fails first, or that the file cannot be read in the first
place.
-/

namespace HealthTree

/-- Why a configuration is not accepted. -/
inductive LoadError where
  | noFile
  | noText
  | malformed
  | refused (why : Refusal)
  | invalid (problems : List Problem)
  deriving Inhabited

/-- What the text of an error begins with. -/
def LoadError.lead : LoadError → String
  | noFile | noText => "IO error: "
  | malformed | refused _ => "Parse error: "
  | invalid _ => "Validation failed: "

/-- What is said about the cause. -/
def LoadError.cause : LoadError → String
  | noFile => "no such file"
  | noText => "the file is not UTF-8 text"
  | malformed => "the text is not TOML"
  | refused why => why.message .toml
  | invalid problems => Problem.allMessages problems

/-- The error in words. -/
def LoadError.message (e : LoadError) : String :=
  e.lead ++ e.cause

namespace Config

/-- Accept a configuration that nothing is wrong with. -/
def validated (c : Config) : Except LoadError Config :=
  match c.problems with
  | [] => .ok c
  | ps => .error (.invalid ps)

/-- **The configuration a TOML text holds.** -/
def parse (text : String) : Except LoadError Config :=
  match Toml.parse text with
  | none => .error .malformed
  | some d =>
    match ofData .toml d with
    | .error why => .error (.refused why)
    | .ok c => c.validated

/-- The configuration a file holds, which is given by its bytes, or `none` if there is no file. -/
def load : Option ByteArray → Except LoadError Config
  | none => .error .noFile
  | some bytes =>
    match String.fromUTF8? bytes with
    | none => .error .noText
    | some text => parse text

end Config

end HealthTree
