import LeveragedLp.Record.Book
import LeveragedLp.Yaml.Value

/-!
# Parameters from a settings text

A settings text is a YAML text that holds a mapping. Each parameter may be given once and
otherwise has its standard value; unknown names do no harm. A file whose name has the extension
`json` holds JSON, any other a settings text.
-/

set_option autoImplicit false

namespace LeveragedLp

namespace Settings

/-- The entries of a settings text, in order. -/
abbrev Entries := List (String × Yaml.Node)

/-- The entries whose names are known, if none of them comes twice. -/
def knownEntries (names : List String) : Entries → Option Entries
  | [] => some []
  | (name, value) :: entries => do
    let known ← knownEntries names entries
    if names.contains name then
      if known.any fun e => e.1 == name then none else some ((name, value) :: known)
    else some known

/-- The value of an entry as it is asked for, or another if there is no entry. -/
def orValue {α : Type} (entries : Entries) (name : String) (read : Yaml.Scalar → Option α)
    (value : α) : Option α :=
  match entries.find? fun e => e.1 == name with
  | some entry => entry.2.scalar?.bind read
  | none => some value

/-- The parameters that entries give. -/
def params? (entries : Entries) : Option Params := do
  let known ← knownEntries Params.names entries
  return {
    baseCurrency :=
      ← orValue known "base_currency" (fun s => Denom.ofText? s.text) Params.standard.baseCurrency
    liquidationThreshold :=
      ← orValue known "liquidation_threshold" Yaml.Scalar.decimal?
        Params.standard.liquidationThreshold
    safeThreshold :=
      ← orValue known "safe_threshold" Yaml.Scalar.decimal? Params.standard.safeThreshold
    poolOpenThreshold :=
      ← orValue known "pool_open_threshold" Yaml.Scalar.decimal?
        Params.standard.poolOpenThreshold
    epochLength :=
      ← orValue known "epoch_length" Yaml.Scalar.word? Params.standard.epochLength
    maxOpenPositions :=
      ← orValue known "max_open_positions" Yaml.Scalar.word? Params.standard.maxOpenPositions
    interestPolicy :=
      ← orValue known "interest_policy" (fun s => s.choice?.bind InterestPolicy.ofName?)
        Params.standard.interestPolicy }

end Settings

namespace Params

/-- The parameters of a settings text, if they are valid. -/
def ofSettingsText (s : String) : Except Fault Params := do
  let params ← orFault .config do Settings.params? (← Yaml.Node.entries? (← Yaml.read? s))
  params.validate
  return params

/-- What stands behind the last point of a file's name. A point at the beginning is part of the
name itself. -/
def extension? (file : String) : Option String :=
  let reversed := file.toList.reverse
  match reversed.dropWhile (· != '.') with
  | [] => none
  | _ :: stem =>
    if stem.isEmpty then none
    else some (String.ofList (reversed.takeWhile (· != '.')).reverse)

/-- The parameters of a file, given by its name and, if it can be read, its text. -/
def load (file : String) (text : Option String) : Except Fault Params := do
  let text ← orFault .config text
  if extension? file = some "json" then ofJsonText text else ofSettingsText text

end Params

end LeveragedLp
