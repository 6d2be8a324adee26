import LeveragedLp.Proofs.JsonTexts
import LeveragedLp.Record.Messages

/-!
# Records survive their text

A value is kept by its codec if its JSON value is grammatical and is read as the value again
(`Kept`); then it is read back from its text (`Kept.readAs?_writeAs`). Amounts, addresses and the
like are always kept, since what is checked when they are read holds of each of them; a decimal is
kept unless it is a zero with a minus. A record is kept if its fields are: their names are
distinct, so each field is found under its own name (`kept_of_record`).

So every record is read back from its text, if none of its decimals is a zero with a minus
(`records_survive_text`).
-/

set_option autoImplicit false

namespace LeveragedLp

open Json

/-- A value whose JSON value is grammatical and is read as the value. -/
structure Kept {α : Type} [JsonCodec α] (a : α) : Prop where
  grammatical : (toJson a).Grammatical
  read : ofJson? (toJson a) = some a

attribute [simp] Kept.grammatical Kept.read

section

variable {α : Type} [JsonCodec α]

/-- **A kept value is read back from its text.** -/
theorem Kept.readAs?_writeAs {a : α} (ha : Kept a) : readAs? α (writeAs a) = some a := by
  rw [readAs?, writeAs, read?_render ha.grammatical]
  exact ha.read

/-! ## Plain types -/

@[simp] theorem kept_bool (b : Bool) : Kept b := ⟨.bool b, rfl⟩

@[simp] theorem kept_text (s : String) : Kept s := ⟨.string s, rfl⟩

/-- The number of a natural number. -/
theorem natural?_number (n : Nat) : (Json.ofNat n).natural? = some n := Numeral.natural?_ofNat n

@[simp] theorem kept_word (n : UInt64) : Kept n where
  grammatical := .number (Numeral.grammatical_ofNat n.toNat)
  read := by
    show ((Json.ofNat n.toNat).natural? >>= fun m =>
      if m < twoPow 64 then some (UInt64.ofNat m) else none) = some n
    rw [natural?_number]
    simp [n.toNat_lt, twoPow]

@[simp] theorem kept_list {items : List α} (hitems : ∀ a ∈ items, Kept a) : Kept items where
  grammatical := by
    apply Grammatical.array
    intro item hitem
    obtain ⟨a, ha, rfl⟩ := List.mem_map.1 hitem
    exact (hitems a ha).grammatical
  read := by
    show (items.map toJson).mapM ofJson? = some items
    induction items with
    | nil => rfl
    | cons a items ih =>
        have hrest := ih fun b hb => hitems b (List.mem_cons_of_mem a hb)
        rw [List.map_cons, List.mapM_cons, (hitems a List.mem_cons_self).read, hrest]
        rfl

/-- What is not null is read as a value that is there. -/
theorem ofJson?_of_ne_null {j : Json} (hj : j ≠ .null) :
    (ofJson? j : Option (Option α)) = (ofJson? j : Option α).map some := by
  cases j with
  | null => exact absurd rfl hj
  | _ => rfl

/-- A value that may be missing is kept if it is, and is not written as a missing one. -/
theorem kept_option {o : Option α} (ho : ∀ a ∈ o, Kept a)
    (hnull : ∀ a : α, toJson a ≠ .null) : Kept o where
  grammatical := by
    cases o with
    | none => exact .null
    | some a => exact (ho a rfl).grammatical
  read := by
    cases o with
    | none => rfl
    | some a =>
        have hread := congrArg (Option.map some) (ho a rfl).read
        exact (ofJson?_of_ne_null (hnull a)).trans hread

end

@[simp] theorem Amount.kept (a : Amount) : Kept a where
  grammatical := .number (Numeral.grammatical_ofNat a.units)
  read := by
    show (Json.ofNat a.units).natural?.bind ofNat? = some a
    rw [natural?_number]
    exact ofNat?_eq_some_iff.2 rfl

@[simp] theorem Decimal.kept {d : Decimal} (hd : d.NotNegativeZero) : Kept d where
  grammatical := .string d.text
  read := (ofText?_text d).trans (congrArg some (unsignedZero_of_notNegativeZero hd))

/-- A decimal is written as a text. -/
theorem Decimal.toJson_ne_null (d : Decimal) : toJson d ≠ .null := by
  intro h
  cases h

theorem Decimal.optional_kept {o : Option Decimal} (ho : ∀ d ∈ o, d.NotNegativeZero) : Kept o :=
  kept_option (fun d hd => kept (ho d hd)) toJson_ne_null

@[simp] theorem Denom.kept (d : Denom) : Kept d where
  grammatical := .string d.text
  read := dif_pos d.wellFormed

@[simp] theorem Address.kept (a : Address) : Kept a where
  grammatical := .string a.text
  read := dif_pos a.notBlank

@[simp] theorem Direction.kept (d : Direction) : Kept d where
  grammatical := .string d.name
  read := by
    cases d with
    | long => rfl
    | short => rfl

@[simp] theorem InterestPolicy.kept (p : InterestPolicy) : Kept p where
  grammatical := .string p.name
  read := by
    cases p with
    | stacked => rfl
    | separate => rfl

/-! ## Records -/

namespace Json

/-- The fields of a record are picked as they were written. -/
theorem pickFields_record {names : List String} {members : Fields}
    (hnodup : (members.map Prod.fst).Nodup) (hnames : ∀ m ∈ members, m.1 ∈ names) :
    pickFields names (members.map fun m => (some m.1, m.2)) = some members := by
  induction members with
  | nil => rfl
  | cons m members ih =>
      rw [List.map_cons, List.nodup_cons] at hnodup
      have hrest := ih hnodup.2 fun n hn => hnames n (List.mem_cons_of_mem m hn)
      have hname := hnames m List.mem_cons_self
      have hnew : (members.any fun f => f.1 == m.1) = false := by
        rw [List.any_eq_false]
        intro f hf heq
        exact hnodup.1 (List.mem_map.2 ⟨f, hf, eq_of_beq heq⟩)
      simp [pickFields, hrest, hname, hnew]

theorem grammatical_record {members : Fields} (hmembers : ∀ m ∈ members, m.2.Grammatical) :
    (record members).Grammatical := by
  apply Grammatical.object
  · intro m hm
    obtain ⟨f, -, rfl⟩ := List.mem_map.1 hm
    rfl
  · intro m hm
    obtain ⟨f, hf, rfl⟩ := List.mem_map.1 hm
    exact hmembers f hf

/-- A field is looked for by its name. -/
@[simp] theorem Fields.member?_cons (name key : String) (value : Json) (fields : Fields) :
    Fields.member? ((name, value) :: fields) key =
      if name = key then some value else fields.member? key := by
  by_cases h : name = key
  · simp [Fields.member?, h]
  · simp [Fields.member?, h, List.find?_cons_of_neg]

end Json

/-- **A record is kept** if its fields have distinct names and grammatical values, and the record
is built from them. -/
theorem kept_of_record {α : Type} [JsonCodec α] {a : α} {members : Fields} {names : List String}
    {partially : Bool} {build : Fields → Option α} (hwritten : toJson a = record members)
    (hread : ∀ j, ofJson? j = (fields? names partially j).bind build)
    (hnames : members.map Prod.fst = names) (hnodup : names.Nodup)
    (hmembers : ∀ m ∈ members, m.2.Grammatical) (hbuild : build members = some a) : Kept a where
  grammatical := hwritten ▸ grammatical_record hmembers
  read := by
    subst hnames
    have hpicked : fields? (members.map Prod.fst) partially (record members) = some members :=
      pickFields_record hnodup fun m hm => List.mem_map_of_mem hm
    rw [hread, hwritten, hpicked]
    exact hbuild

/-! The codec of a record names its fields twice, in writing and in reading, so what remains to be
shown of each record is that its values are grammatical and that each is found. -/

@[simp] theorem Coin.kept (c : Coin) : Kept c := by
  refine kept_of_record rfl (fun _ => rfl) rfl (by decide) ?_ ?_
  · simp
  · simp [Fields.required]

theorem Block.kept (b : Block) : Kept b := by
  refine kept_of_record rfl (fun _ => rfl) rfl (by decide) ?_ ?_
  · simp
  · simp [Fields.required]

theorem SwapRoute.kept (r : SwapRoute) : Kept r := by
  refine kept_of_record rfl (fun _ => rfl) rfl (by decide) ?_ ?_
  · simp
  · simp [Fields.required]

theorem PoolListing.kept (p : PoolListing) : Kept p := by
  refine kept_of_record rfl (fun _ => rfl) rfl (by decide) ?_ ?_
  · simp
  · simp [Fields.required]

theorem PositionKey.kept (k : PositionKey) : Kept k := by
  refine kept_of_record rfl (fun _ => rfl) rfl (by decide) ?_ ?_
  · simp
  · simp [Fields.required]

theorem PositionSummary.kept (p : PositionSummary) : Kept p := by
  refine kept_of_record rfl (fun _ => rfl) rfl (by decide) ?_ ?_
  · simp [PositionSummary.fields]
  · simp [PositionSummary.fields, Fields.required]

/-- The decimals of a record of parameters. -/
def Params.decimals (p : Params) : List Decimal :=
  [p.liquidationThreshold, p.safeThreshold, p.poolOpenThreshold]

theorem Params.kept {p : Params} (hp : ∀ d ∈ p.decimals, d.NotNegativeZero) : Kept p := by
  simp only [decimals, List.forall_mem_cons] at hp
  refine kept_of_record rfl (fun _ => rfl) rfl (by decide) ?_ ?_
  · simp [hp]
  · simp [Fields.orValue, hp]

def Pool.decimals (p : Pool) : List Decimal := [p.health, p.leverageMax]

theorem Pool.kept {p : Pool} (hp : ∀ d ∈ p.decimals, d.NotNegativeZero) : Kept p := by
  simp only [decimals, List.forall_mem_cons] at hp
  refine kept_of_record rfl (fun _ => rfl) rfl (by decide) ?_ ?_
  · simp [hp]
  · simp [Fields.required, hp]

def Position.decimals (p : Position) : List Decimal := p.leverage :: p.health :: p.takeProfit.toList

theorem Position.kept {p : Position} (hp : ∀ d ∈ p.decimals, d.NotNegativeZero) : Kept p := by
  simp only [decimals, List.forall_mem_cons, Option.mem_toList] at hp
  have hprofit := Decimal.optional_kept hp.2.2
  refine kept_of_record rfl (fun _ => rfl) rfl (by decide) ?_ ?_
  · simp [hp, hprofit]
  · simp [Fields.required, Fields.orValue, hp, hprofit]

def OpenRequest.decimals (r : OpenRequest) : List Decimal := r.leverage :: r.takeProfit.toList

theorem OpenRequest.kept {r : OpenRequest} (hr : ∀ d ∈ r.decimals, d.NotNegativeZero) : Kept r := by
  simp only [decimals, List.forall_mem_cons, Option.mem_toList] at hr
  have hprofit := Decimal.optional_kept hr.2
  refine kept_of_record rfl (fun _ => rfl) rfl (by decide) ?_ ?_
  · simp [hr, hprofit]
  · simp [Fields.required, Fields.orValue, hr, hprofit]

def Response.decimals (r : Response) : List Decimal := [r.health]

theorem Response.kept {r : Response} (hr : ∀ d ∈ r.decimals, d.NotNegativeZero) : Kept r := by
  simp only [decimals, List.forall_mem_cons] at hr
  refine kept_of_record rfl (fun _ => rfl) rfl (by decide) ?_ ?_
  · simp [hr]
  · simp [Fields.required, hr]

/-! ## Reading back -/

/-- Parameters are taken from their text as far as they are valid. -/
theorem Params.ofJsonText_writeAs {p : Params} (hp : ∀ d ∈ p.decimals, d.NotNegativeZero) :
    ofJsonText (writeAs p) = p.validate.map fun _ => p := by
  unfold ofJsonText
  rw [(kept hp).readAs?_writeAs, orFault_some]
  show (p.validate >>= fun _ => pure p) = _
  cases p.validate with
  | error _ => rfl
  | ok _ => rfl

/-- **Records survive their text.** Each is read back as it was, with the scales of its decimals,
if none of these is a zero with a minus. Parameters are moreover taken from their text exactly if
they are valid. -/
theorem records_survive_text :
    (∀ p : Params, (∀ d ∈ p.decimals, d.NotNegativeZero) →
      readAs? Params (writeAs p) = some p ∧
        (Params.ofJsonText (writeAs p) = .ok p ↔ p.validate = .ok ())) ∧
    (∀ p : Pool, (∀ d ∈ p.decimals, d.NotNegativeZero) → readAs? Pool (writeAs p) = some p) ∧
    (∀ k : PositionKey, readAs? PositionKey (writeAs k) = some k) ∧
    (∀ p : Position, (∀ d ∈ p.decimals, d.NotNegativeZero) →
      readAs? Position (writeAs p) = some p) ∧
    (∀ r : OpenRequest, (∀ d ∈ r.decimals, d.NotNegativeZero) →
      readAs? OpenRequest (writeAs r) = some r) ∧
    (∀ r : Response, (∀ d ∈ r.decimals, d.NotNegativeZero) →
      readAs? Response (writeAs r) = some r) ∧
    (∀ p : PositionSummary, readAs? PositionSummary (writeAs p) = some p) ∧
    (∀ c : Coin, readAs? Coin (writeAs c) = some c) ∧
    (∀ b : Block, readAs? Block (writeAs b) = some b) ∧
    (∀ r : SwapRoute, readAs? SwapRoute (writeAs r) = some r) ∧
    (∀ p : PoolListing, readAs? PoolListing (writeAs p) = some p) := by
  refine ⟨?_, ?_, ?_, ?_, ?_, ?_, ?_, ?_, ?_, ?_, ?_⟩
  · intro p hp
    refine ⟨(Params.kept hp).readAs?_writeAs, ?_⟩
    rw [Params.ofJsonText_writeAs hp, except_map_eq_ok]
    constructor
    · rintro ⟨⟨⟩, hvalid, -⟩
      exact hvalid
    · intro hvalid
      exact ⟨(), hvalid, rfl⟩
  · exact fun p hp => (Pool.kept hp).readAs?_writeAs
  · exact fun k => (PositionKey.kept k).readAs?_writeAs
  · exact fun p hp => (Position.kept hp).readAs?_writeAs
  · exact fun r hr => (OpenRequest.kept hr).readAs?_writeAs
  · exact fun r hr => (Response.kept hr).readAs?_writeAs
  · exact fun p => (PositionSummary.kept p).readAs?_writeAs
  · exact fun c => (Coin.kept c).readAs?_writeAs
  · exact fun b => (Block.kept b).readAs?_writeAs
  · exact fun r => (SwapRoute.kept r).readAs?_writeAs
  · exact fun p => (PoolListing.kept p).readAs?_writeAs

/-- A position whose owner needs escapes, with the largest amount and the finest decimal. -/
def Sample.escaped : Position where
  id := 1
  owner := .ofModule "\"é\\𝄞\n\x01"
  pool := 7
  direction := .short
  leverage := .tenths 50
  health := { Decimal.one with negative := true, scale := 28, scale_le := Nat.le_refl 28 }
  collateral := ⟨.usdc, .largest⟩
  freeCollateral := .zero
  takeProfit := some (.hundredths 120)
  custody := ⟨.poolShare 7, .one⟩
  borrowAsset := .usdc
  liabilities := .one
  interestPaid := .zero
  interestPaidCustody := .zero
  interestUnpaid := .zero
  openedAt := 0
  accruedUntil := 3600

/-- The standard parameters are taken from their text, and this position is read back. -/
theorem standard_and_escaped_survive_text :
    (∀ d ∈ Params.standard.decimals, d.NotNegativeZero) ∧
    Params.ofJsonText (writeAs Params.standard) = .ok .standard ∧
    (∀ d ∈ Sample.escaped.decimals, d.NotNegativeZero) ∧
    readAs? Position (writeAs Sample.escaped) = some Sample.escaped := by
  have hstandard : ∀ d ∈ Params.standard.decimals, d.NotNegativeZero := by decide
  have hescaped : ∀ d ∈ Sample.escaped.decimals, d.NotNegativeZero := by decide
  have hvalid : Params.standard.validate = .ok () := rfl
  refine ⟨hstandard, ?_, hescaped, ?_⟩
  · exact (records_survive_text.1 Params.standard hstandard).2.2 hvalid
  · exact records_survive_text.2.2.2.1 Sample.escaped hescaped

end LeveragedLp
