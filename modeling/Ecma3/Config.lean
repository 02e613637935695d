import Ecma3.Json.Printer
import Ecma3.Nesting
import Ecma3.Yaml.Document

/-!
The settings of a build, which can be written in YAML. Settings that are left out keep their defaults,
and keys that are no settings are passed over.
-/

namespace Ecma3

structure Config where
  /-- Deepest nesting that is parsed and built. -/
  maxDepth : Nat
deriving DecidableEq, Repr

namespace Config

def default : Config := ⟨Nesting.defaultLimit⟩

/-- The number that digits of a base stand for, if there is one and no greater than a size can be. -/
def size? (base : Nat) (digits : List Char) : Option Nat :=
  let isDigit (c : Char) : Bool := Text.isHexDigit c && Text.digitValue c < base
  if digits.isEmpty || !digits.all isDigit then none
  else
    let n := Text.valueOf base digits
    if n ≤ Nesting.maxSize then some n else none

/-- A whole number as YAML writes it. A decimal number has no leading zeros. -/
def wholeNumber? (cs : List Char) : Option Nat :=
  match (match cs with | '+' :: rest => rest | cs => cs) with
  | '0' :: 'x' :: digits => size? 16 digits
  | '0' :: 'o' :: digits => size? 8 digits
  | '0' :: 'b' :: digits => size? 2 digits
  | '0' :: _ :: _ => none
  | digits => size? 10 digits

/-- A setting that is a size must be a plain number. -/
def sizeOf? : Yaml.Value → Option Nat
  | .scalar .plain text => wholeNumber? text.toList
  | _ => none

/-- Reads entries on top of the settings that are known. A setting may be given once. -/
def ofEntries? (known : Option Nat) : List (Yaml.Value × Yaml.Value) → Option Config
  | [] => some ⟨known.getD default.maxDepth⟩
  | (.scalar _ key, value) :: rest =>
    if key = "max_depth" then
      if known.isSome then none
      else (sizeOf? value).bind fun n => ofEntries? (some n) rest
    else ofEntries? known rest
  | _ :: _ => none

def ofYaml? (text : String) : Option Config := do
  match ← Yaml.parse? text with
  | .mapping entries => ofEntries? none entries
  | .scalar _ text => if text.isEmpty then return default else none
  | .sequence _ => none

/-- Reads the text of a file, which there is none of if the file does not exist. -/
def ofFile? (content : Option String) : Option Config := content.bind ofYaml?

def toJson (c : Config) : Json := .obj [("max_depth", .ofNat c.maxDepth)]

end Config
end Ecma3
