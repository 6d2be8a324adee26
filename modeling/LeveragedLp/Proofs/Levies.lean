import LeveragedLp.Proofs.Development
import LeveragedLp.Proofs.Epochs
import LeveragedLp.Proofs.Ledger

/-!
# Levies and top-ups

A pass charges each position on its own: a levy is what it charged to one (`Levy`), with the record
that it found, the seconds and the rate it was computed on, and the calls that the host made for
it. `Engine.levied` lists the levies of a run, and `Engine.toppedUp` adds up what was added to one
position.

By these a request accounts for what it did to every record: a position that is open after it was
opened by it, or was open before and developed by its levies and top-ups (`Engine.next_record`).
-/

set_option autoImplicit false

namespace LeveragedLp

open Engine

/-! ## What is charged -/

/-- One charge of interest to a position in the accrual of an epoch. -/
structure Levy where
  /-- The position as it was found. -/
  position : Position
  time : UInt64
  /-- The yearly rate, as the host told it. -/
  rate : Decimal
  accrual : Accrual
  /-- The calls that the host made for the charge. -/
  calls : Journal

namespace Levy

/-- The seconds that the interest was computed on. -/
def seconds (l : Levy) : Nat := (l.position.elapsed l.time).toNat

/-- The units that the host was paid. -/
def paid (l : Levy) : Nat := Journal.total Transfer.interestUnits l.calls

/-- What the levies on one position amount to. -/
def total (f : Levy → Nat) (k : PositionKey) (ls : List Levy) : Nat :=
  ((ls.filter fun l => l.position.key = k).map f).sum

variable (f : Levy → Nat) (k : PositionKey)

theorem total_append (ls ms : List Levy) : total f k (ls ++ ms) = total f k ls + total f k ms := by
  unfold total
  rw [List.filter_append, List.map_append, List.sum_append]

theorem total_of_eq {l : Levy} (h : l.position.key = k) : total f k [l] = f l := by
  simp [total, h]

theorem total_of_ne {l : Levy} (h : l.position.key ≠ k) : total f k [l] = 0 := by
  simp [total, h]

/-- Levies on others amount to nothing. -/
theorem total_eq_zero {ls : List Levy} (h : ∀ l ∈ ls, l.position.key ≠ k) : total f k ls = 0 := by
  have hnone : ls.filter (fun l => l.position.key = k) = [] := by
    refine List.filter_eq_nil_iff.2 fun l hl => ?_
    simpa using h l hl
  rw [total, hnone]
  rfl

end Levy

/-- The levy of a visit of the accrual: its charge, if it did not fail. -/
def Moment.levy? {σ κ : Type} (h : Host σ κ) (block : Block) (m : Moment (σ × Journal)) :
    Option Levy :=
  match m.visited (accrueVisit h.journaled block), m.engine.book.position? m.key with
  | (.ok accrual, _, _, journal), some position => some {
      position, accrual
      time := block.time
      rate := h.interestRate m.host.1
      calls := journal.drop m.host.2.length }
  | _, _ => none

namespace Engine

/-- The levies of an accrual for a block. -/
def leviesFor {σ κ : Type} (h : Host σ κ) (e : Engine) (block : Block) (s : σ) : List Levy :=
  if e.book.lastEpoch = some (e.params.epochOf block.height) then []
  else (moments (accrueVisit h.journaled block) e.book.positions.keys e (s, [])).filterMap
    (Moment.levy? h block)

/-- The levies of an operation, in their order. -/
def levies {σ κ : Type} (h : Host σ κ) (e : Engine) (op : Operation) (s : σ) : List Levy :=
  match e.accrues? op with
  | some block => leviesFor h e block s
  | none => []

/-- The levies of a run. -/
def levied : Engine → List Request → List Levy
  | _, [] => []
  | e, q :: qs => levies q.host e q.op q.state ++ (e.next q).levied qs

theorem levied_append (e : Engine) (pre post : List Request) :
    e.levied (pre ++ post) = e.levied pre ++ (e.run pre).levied post := by
  induction pre generalizing e with
  | nil => rfl
  | cons q pre ih =>
      rw [List.cons_append, levied, levied, ih, List.append_assoc]
      rfl

end Engine

/-- The units that an operation added to a position, as its answer tells. -/
def Operation.adds (op : Operation) (answer : Except Fault Answer) (k : PositionKey) : Nat :=
  match op, answer with
  | addCollateral l coin, .ok _ => if l = k then coin.amount.units else 0
  | _, _ => 0

namespace Engine

/-- The units that a run added to a position. -/
def toppedUp : Engine → List Request → PositionKey → Nat
  | _, [], _ => 0
  | e, q :: qs, k => q.op.adds (e.respond q) k + (e.next q).toppedUp qs k

end Engine

/-! ## Records that are carried on -/

/-- The record of a position after something was done is the record of one that was open before,
which developed by what was added and by levies, under a policy that did not change. -/
def Engine.Carried (e : Engine) (added : PositionKey → Nat) (ls : List Levy) (e' : Engine)
    (k : PositionKey) (q : Position) : Prop :=
  e'.params.interestPolicy = e.params.interestPolicy ∧
    ∃ p, e.book.position k = .ok p ∧ p.Develops e.params.interestPolicy (added k)
      (Levy.total Levy.paid k ls) (Levy.total Levy.seconds k ls) q

/-- All positions that are open after something was done are carried on. -/
def Engine.Carries (e : Engine) (added : PositionKey → Nat) (ls : List Levy) (e' : Engine) : Prop :=
  ∀ k q, e'.book.position k = .ok q → e.Carried added ls e' k q

namespace Engine

variable {e e₁ e₂ : Engine} {added added' : PositionKey → Nat} {ls ms : List Levy}
variable {k : PositionKey} {q : Position}

theorem Carried.trans (x : e₁.Carried added' ms e₂ k q)
    (y : ∀ p, e₁.book.position k = .ok p → e.Carried added ls e₁ k p) :
    e.Carried (fun l => added l + added' l) (ls ++ ms) e₂ k q := by
  obtain ⟨hpolicy, p, hfound, hdevelops⟩ := x
  obtain ⟨hpolicy', p', hfound', hdevelops'⟩ := y p hfound
  rw [hpolicy'] at hdevelops
  refine ⟨hpolicy.trans hpolicy', p', hfound', ?_⟩
  rw [Levy.total_append, Levy.total_append]
  exact hdevelops'.trans hdevelops

theorem Carries.trans (x : e.Carries added ls e₁) (y : e₁.Carries added' ms e₂) :
    e.Carries (fun l => added l + added' l) (ls ++ ms) e₂ :=
  fun k q hq => (y k q hq).trans fun p hp => x k p hp

/-- Nothing was charged or added where the records that are left are as they were. -/
theorem Carries.of_same (hpolicy : e₁.params.interestPolicy = e.params.interestPolicy)
    (hsame : ∀ k q, e₁.book.position k = .ok q → e.book.position k = .ok q) :
    e.Carries (fun _ => 0) [] e₁ :=
  fun k q hq => ⟨hpolicy, q, hsame k q hq, .refl q _⟩

/-- Positions may be closed afterwards. -/
theorem Carries.andLeave (x : e.Carries added ls e₁)
    (hpolicy : e₂.params.interestPolicy = e₁.params.interestPolicy)
    (hsame : ∀ k q, e₂.book.position k = .ok q → e₁.book.position k = .ok q) :
    e.Carries added ls e₂ := by
  intro k q hq
  obtain ⟨hpolicy', hrecord⟩ := x k q (hsame k q hq)
  exact ⟨hpolicy.trans hpolicy', hrecord⟩

/-- One record was filed anew, and it developed from the one in the place of which it was filed. -/
theorem Carries.put {p : Position} (hfound : e.book.position k = .ok p)
    (hpolicy : e₁.params.interestPolicy = e.params.interestPolicy)
    (hpositions : e₁.book.positions = e.book.positions.insert q)
    (hq : p.Develops e.params.interestPolicy (added k) (Levy.total Levy.paid k ls)
      (Levy.total Levy.seconds k ls) q)
    (hothers : ∀ l ≠ k, added l = 0 ∧ ∀ f, Levy.total f l ls = 0) : e.Carries added ls e₁ := by
  have hkey : q.key = k := hq.key_eq.trans (Book.key_of_position hfound)
  intro l r hr
  have hget := Book.position_eq_ok.1 hr
  rw [hpositions] at hget
  refine ⟨hpolicy, ?_⟩
  by_cases hl : l = k
  · subst hl
    have hself : (e.book.positions.insert q).get? l = some q := by
      rw [← hkey]
      exact Registry.get?_insert_self _ _
    cases hself.symm.trans hget
    exact ⟨p, hfound, hq⟩
  · obtain ⟨hadded, htotal⟩ := hothers l hl
    have hne : l ≠ q.key := by rwa [hkey]
    rw [Registry.get?_insert_of_ne hne] at hget
    refine ⟨r, Book.position_eq_ok.2 hget, ?_⟩
    rw [hadded, htotal, htotal]
    exact .refl r _

end Engine

/-! ## A pass -/

section

variable {σ κ : Type} {h : Host σ κ} {e : Engine} {block : Block} {k : PositionKey}

/-- The levy of a successful charge. -/
def Charge.levy {s t : σ × Journal} (o : Charge h.journaled k block e s t) : Levy where
  position := o.before
  time := block.time
  rate := h.interestRate s.1
  accrual := o.accrual
  calls := t.2.drop s.2.length

/-- The interest that was paid is in its calls. -/
theorem Charge.levy_paid {s t : σ × Journal} (o : Charge h.journaled k block e s t) :
    o.levy.paid = o.accrual.paid.units := by
  obtain ⟨new, hnew, hmoves⟩ := o.wrote
  have hcalls : t.2.drop s.2.length = new := by
    rw [hnew]
    exact List.drop_left
  have hsum : (o.moves.map Transfer.interestUnits).sum = o.accrual.paid.units :=
    sum_unlessZero _ fun h0 => h0
  show Journal.total Transfer.interestUnits (t.2.drop s.2.length) = _
  rw [hcalls, ← hsum, ← hmoves, List.map_map]
  rfl

theorem Charge.levy_key {s t : σ × Journal} (o : Charge h.journaled k block e s t) :
    o.levy.position.key = k := Book.key_of_position o.found_eq

theorem Charge.levy?_eq {e' : Engine} {s t : σ × Journal} (o : Charge h.journaled k block e s t)
    (hvisit : accrueVisit h.journaled block k e s = (.ok o.accrual, e', t)) :
    Moment.levy? h block ⟨k, e, s⟩ = some o.levy := by
  have hfound : e.book.position? k = some o.before := Book.position_eq_ok.1 o.found_eq
  unfold Moment.levy? Moment.visited
  rw [hvisit]
  simp only [hfound]
  rfl

/-- What cannot be charged has no levy. -/
theorem levy?_of_error {e' : Engine} {s t : σ × Journal} {fault : Fault}
    (hvisit : accrueVisit h.journaled block k e s = (.error fault, e', t)) :
    Moment.levy? h block ⟨k, e, s⟩ = none := by
  unfold Moment.levy? Moment.visited
  rw [hvisit]

/-- A levy is computed on the record that its visit found. -/
theorem Moment.of_levy? {m : Moment (σ × Journal)} {l : Levy} (hlevy : m.levy? h block = some l) :
    m.engine.book.position m.key = .ok l.position ∧ l.time = block.time ∧
      l.accrual.ComputedAt l.position l.rate block.time := by
  obtain ⟨k, e, s⟩ := m
  rcases accrueVisit_cases h.journaled block k e s with ⟨t, o, hvisit⟩ | ⟨fault, t, hvisit, -⟩
  · cases hlevy.symm.trans (o.levy?_eq hvisit)
    exact ⟨o.found_eq, rfl, (planEpoch_develops o.plan_eq).1⟩
  · rw [levy?_of_error hvisit] at hlevy
    cases hlevy

namespace Engine

/-- A visit charges its position, or leaves all records as they were. -/
theorem accrueVisit_carries (h : Host σ κ) (block : Block) (k : PositionKey) (e : Engine)
    (s : σ × Journal) : e.Carries (fun _ => 0) (Moment.levy? h block ⟨k, e, s⟩).toList
      (accrueVisit h.journaled block k e s).2.1 := by
  rcases accrueVisit_cases h.journaled block k e s with ⟨t, o, hvisit⟩ | ⟨fault, t, hvisit, -⟩
  · rw [hvisit, o.levy?_eq hvisit]
    refine .put o.found_eq rfl rfl ?_ fun other hne => ⟨rfl, fun f => ?_⟩
    · have hdevelops := o.develops
      rw [← o.levy_paid] at hdevelops
      rw [Option.toList_some, Levy.total_of_eq _ _ o.levy_key, Levy.total_of_eq _ _ o.levy_key]
      exact hdevelops
    · exact Levy.total_of_ne f other fun hother => hne (hother.symm.trans o.levy_key)
  · rw [hvisit, levy?_of_error hvisit]
    exact .of_same rfl fun _ _ => id

/-- The levies of visits are those of the first and those of the rest. -/
theorem levies_cons (h : Host σ κ) (block : Block) (k : PositionKey) (ks : List PositionKey)
    (e : Engine) (s : σ × Journal) :
    (moments (accrueVisit h.journaled block) (k :: ks) e s).filterMap (Moment.levy? h block) =
      (Moment.levy? h block ⟨k, e, s⟩).toList ++
        (moments (accrueVisit h.journaled block) ks (accrueVisit h.journaled block k e s).2.1
          (accrueVisit h.journaled block k e s).2.2).filterMap (Moment.levy? h block) := by
  rw [moments, List.filterMap_cons]
  cases Moment.levy? h block ⟨k, e, s⟩ with
  | none => rfl
  | some l => rfl

/-- So do visits one after the other. -/
theorem accrueVisits_carries (h : Host σ κ) (block : Block) (ks : List PositionKey) (e : Engine)
    (s : σ × Journal) :
    e.Carries (fun _ => 0)
      ((moments (accrueVisit h.journaled block) ks e s).filterMap (Moment.levy? h block))
      (visitEach (accrueVisit h.journaled block) ks e s).2.1 := by
  induction ks generalizing e s with
  | nil => exact .of_same rfl fun _ _ => id
  | cons k ks ih =>
      have hfirst := accrueVisit_carries h block k e s
      have hrest := ih (accrueVisit h.journaled block k e s).2.1
        (accrueVisit h.journaled block k e s).2.2
      rw [levies_cons]
      exact hfirst.trans hrest

/-- An accrual carries all positions on. -/
theorem accrueEpoch_carries (h : Host σ κ) (e : Engine) (block : Block) (s : σ) :
    e.Carries (fun _ => 0) (leviesFor h e block s) (accrueEpoch h e block s).2.1 := by
  unfold leviesFor
  by_cases hdone : e.book.lastEpoch = some (e.params.epochOf block.height)
  · rw [if_pos hdone, accrueEpoch_idle hdone]
    exact .of_same rfl fun _ _ => id
  · have hvisits := accrueVisits_carries h block e.book.positions.keys e (s, [])
    have herases := accrueEpoch_erases (h := h) block e (s, [])
    have hengine : (accrueEpoch h e block s).2.1 =
        (accrueEpoch h.journaled e block (s, [])).2.1 := congrArg (fun x => x.2.1) herases
    rw [if_neg hdone, hengine]
    unfold accrueEpoch
    rw [if_neg hdone]
    -- neither the epoch nor the pools are on the records of positions
    show e.Carries _ _ (refreshPools h.journaled _ _)
    rw [refreshPools_eq]
    exact hvisits

/-- A visit touches no position but the one it is made for. -/
theorem accrueVisit_other (h : Host σ κ) (block : Block) (e : Engine) (s : σ) {l : PositionKey}
    (hne : l ≠ k) :
    (accrueVisit h block k e s).2.1.book.position? l = e.book.position? l := by
  rcases accrueVisit_cases h block k e s with ⟨t, o, hvisit⟩ | ⟨fault, t, hvisit, -⟩
  · rw [hvisit]
    refine Registry.get?_insert_of_ne fun hsame => ?_
    exact hne (hsame.trans o.key_eq)
  · rw [hvisit]
    rfl

/-- A pass that makes no visit twice finds each record as it was before the pass. -/
theorem accrueMoments_found {ks : List PositionKey} {s : σ} (hnodup : ks.Nodup) {m : Moment σ}
    (hm : m ∈ moments (accrueVisit h block) ks e s) :
    m.engine.book.position? m.key = e.book.position? m.key := by
  induction ks generalizing e s with
  | nil => cases hm
  | cons k ks ih =>
      obtain ⟨hk, hks⟩ := List.nodup_cons.1 hnodup
      rcases List.mem_cons.1 hm with rfl | hm
      · rfl
      · have hlater := List.mem_map_of_mem (f := Moment.key) hm
        rw [moments_keys] at hlater
        refine (ih hks hm).trans (accrueVisit_other h block e s ?_)
        rintro rfl
        exact hk hlater

/-- A position is charged on the record that it has before the operation, at the time of the
block. -/
theorem of_mem_levies {op : Operation} {s : σ} {l : Levy} (hl : l ∈ levies h e op s) :
    e.book.position l.position.key = .ok l.position ∧ ∃ block, op.tick? = some block ∧
      l.time = block.time ∧ l.accrual.ComputedAt l.position l.rate block.time := by
  unfold levies at hl
  split at hl
  · next block haccrues =>
    unfold leviesFor at hl
    split at hl
    · cases hl
    · obtain ⟨m, hm, hlevy⟩ := List.mem_filterMap.1 hl
      obtain ⟨hfound, htime, hcomputed⟩ := Moment.of_levy? hlevy
      have hsame := accrueMoments_found (Registry.keys_ascending _).nodup hm
      have hbefore := hsame.symm.trans (Book.position_eq_ok.1 hfound)
      rw [Book.key_of_position hfound]
      exact ⟨Book.position_eq_ok.2 hbefore, block, tick_of_accrues haccrues, htime, hcomputed⟩
  · cases hl

/-- What is done before the sweep of a block carries all positions on. -/
theorem accrualStep_carries (h : Host σ κ) (e : Engine) (block : Block) (s : σ) :
    e.Carries (fun _ => 0) (levies h e (.beginBlock block) s) (accrualStep h e block s).2.1 := by
  unfold levies
  rcases accrualStep_cases h e block s with ⟨haccrues, hstep⟩ | ⟨haccrues, hstep⟩
  · rw [haccrues, hstep]
    exact accrueEpoch_carries h e block s
  · rw [haccrues, hstep]
    exact .of_same rfl fun _ _ => id

end Engine

/-! ## Requests -/

/-- The policy is set anew only where no position is open. -/
theorem Engine.updateParams_keeps {params : Params} {e' : Engine}
    (hupdate : e.updateParams params = .ok e') : e'.book = e.book ∧
      ((e.book.position? k).isSome → e'.params.interestPolicy = e.params.interestPolicy) := by
  obtain ⟨_, -, hupdate⟩ := except_bind_eq_ok.1 hupdate
  obtain ⟨hchange, hupdate⟩ := refuse_bind_eq_ok.1 hupdate
  cases hupdate
  refine ⟨rfl, fun hopen => ?_⟩
  obtain ⟨p, hp⟩ := Option.isSome_iff_exists.1 hopen
  have hsize : 0 < e.book.positions.size := List.length_pos_of_mem (Registry.mem_toList_of_get? hp)
  by_contra hpolicy
  exact hchange ⟨hpolicy, hsize⟩

/-- What an operation leaves of the positions: each was opened by it, or is carried on. -/
theorem Outcome.record {op : Operation} {answer : Except Fault Answer} {e' : Engine} {s t : σ}
    {q : Position} (x : Outcome h e s op answer e' t) (hq : e'.book.position k = .ok q) :
    e.Carried (op.adds answer) (levies h e op s) e' k q ∨
      ∃ r block, ∃ o : Opening h r block e s t, op = .openPosition r block ∧
        answer = .ok (.opened o.response) ∧ e' = o.after ∧ q = o.position := by
  cases x with
  | refused fault fallible rests =>
      have hlevies : levies h e op s = [] := by
        cases op <;> first | rfl | cases fallible
      have hadds : op.adds (.error fault) = fun _ => 0 := by
        cases op <;> rfl
      rw [hlevies, hadds]
      exact .inl (Carries.of_same rfl (fun _ _ => id) k q hq)
  | @opened r block t o =>
      have hget := Book.position_eq_ok.1 hq
      change (e.book.positions.insert o.position).get? k = some q at hget
      by_cases hkey : k = o.position.key
      · have hself : (e.book.positions.insert o.position).get? o.position.key =
            some o.position := Registry.get?_insert_self _ _
        rw [hkey, hself] at hget
        exact .inr ⟨r, block, o, rfl, rfl, rfl, (Option.some.inj hget).symm⟩
      · rw [Registry.get?_insert_of_ne hkey] at hget
        refine .inl ⟨rfl, q, Book.position_eq_ok.2 hget, .refl q _⟩
  | @toppedUp l coin t o =>
      have hself : Operation.adds (.addCollateral l coin) (.ok (.topUp o.health)) l =
          coin.amount.units := if_pos rfl
      have hcarries : e.Carries (Operation.adds (.addCollateral l coin) (.ok (.topUp o.health))) []
          o.after := by
        refine .put o.found_eq rfl rfl ?_ fun other hne => ⟨if_neg (Ne.symm hne), fun f => rfl⟩
        rw [hself]
        exact o.develops
      exact .inl (hcarries k q hq)
  | closed found o =>
      have hcarries : e.Carries (fun _ => 0) [] o.after :=
        .of_same rfl fun _ _ => o.position_of_after
      exact .inl (hcarries k q hq)
  | forceClosed found judged o =>
      have hcarries : e.Carries (fun _ => 0) [] o.after :=
        .of_same rfl fun _ _ => o.position_of_after
      exact .inl (hcarries k q hq)
  | notEligible health => exact .inl (Carries.of_same rfl (fun _ _ => id) k q hq)
  | accrued block => exact .inl (accrueEpoch_carries h e block s k q hq)
  | swept block =>
      have hsweep := beginBlock_sweeping h e block s
      have hcarries := accrualStep_carries h e block s
      refine .inl (hcarries.andLeave (congrArg Params.interestPolicy hsweep.params) ?_ k q hq)
      intro l r hr
      -- what the sweep did not settle is as it found it
      have hsame := (hsweep.of_open (Book.isSome_of_position hr)).2
      exact Book.position_eq_ok.2 (hsame.symm.trans (Book.position_eq_ok.1 hr))
  | configured updated =>
      obtain ⟨hbook, hpolicy⟩ := updateParams_keeps updated
      have hfound : e.book.position k = .ok q := by rwa [hbook] at hq
      exact .inl ⟨hpolicy (Book.isSome_of_position hfound), q, hfound, .refl q _⟩
  | @administered op answer pools administers fits =>
      have hlevies : levies h e op s = [] := by
        cases op <;> first | rfl | cases administers
      have hadds : op.adds (.ok answer) = fun _ => 0 := by
        cases op <;> first | rfl | cases administers
      rw [hlevies, hadds]
      exact .inl ⟨rfl, q, hq, .refl q _⟩
  | drained => exact .inl (Carries.of_same rfl (fun _ _ => id) k q hq)

end

end LeveragedLp
