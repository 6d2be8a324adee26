import LeveragedLp.Proofs.Exposure
import LeveragedLp.Proofs.Outcomes
import LeveragedLp.Proofs.Sweep

/-!
# Epochs

Interest is charged once in an epoch. What keeps it from being charged twice is the last epoch on
the book: an accrual makes no pass where the epoch of its block is the one that was accrued last.
Along a run that epoch is the one of the last pass (`Engine.run_lastEpoch`), so what the comparison
comes to depends on how the epochs of two heights lie to each other.

Where the length of epochs is fixed and heights do not decrease, the epochs of the passes ascend,
and an accrual in an epoch that had its pass does nothing (`Engine.passes_ascend`,
`Engine.lastEpoch_of_accrued`). Where the length changes, two epochs with one number need not be
the same epoch. An epoch that begins after the lengthening may have the number of one that was
accrued before, and then it gets no pass when it begins; for this the epochs must have become
longer (`Params.epochOf_ne_of_boundary`).
-/

set_option autoImplicit false

namespace LeveragedLp

open Engine

/-! ## Heights and their epochs -/

namespace Params

variable (params : Params) {height height' : UInt64}

theorem epochOf_toNat (height : UInt64) :
    (params.epochOf height).toNat = height.toNat / params.blocksPerEpoch.toNat :=
  UInt64.toNat_div _ _

/-- The epochs of ascending heights ascend. -/
theorem epochOf_le (hle : height ≤ height') : params.epochOf height ≤ params.epochOf height' := by
  rw [UInt64.le_iff_toNat_le] at hle ⊢
  rw [epochOf_toNat, epochOf_toNat]
  exact Nat.div_le_div_right hle

/-- Only the length of epochs matters. -/
theorem epochOf_congr {params params' : Params} (h : params.epochLength = params'.epochLength) :
    params.epochOf = params'.epochOf := by
  funext height
  unfold epochOf blocksPerEpoch
  rw [h]

/-- An epoch begins at a multiple of its length. -/
theorem toNat_of_boundary (hboundary : params.isEpochBoundary height = true) :
    (params.epochOf height).toNat * params.blocksPerEpoch.toNat = height.toNat := by
  have hmod : height % params.blocksPerEpoch = 0 := eq_of_beq hboundary
  have hzero : height.toNat % params.blocksPerEpoch.toNat = 0 := by
    rw [← UInt64.toNat_mod, hmod]
    rfl
  rw [epochOf_toNat]
  exact Nat.div_mul_cancel (Nat.dvd_of_mod_eq_zero hzero)

/-- The epoch that begins at a height has a number that no earlier height had, as long as epochs
were not shorter before. -/
theorem epochOf_ne_of_boundary (before : Params)
    (hboundary : params.isEpochBoundary height' = true) (hlt : height < height')
    (hblocks : params.blocksPerEpoch ≤ before.blocksPerEpoch) :
    before.epochOf height ≠ params.epochOf height' := by
  intro heq
  rw [UInt64.lt_iff_toNat_lt] at hlt
  rw [UInt64.le_iff_toNat_le] at hblocks
  have hbegins := params.toNat_of_boundary hboundary
  rw [← heq, before.epochOf_toNat] at hbegins
  -- with the same number, the earlier height would not come before the boundary
  have hcontra : height'.toNat ≤ height.toNat := by
    calc height'.toNat
        = height.toNat / before.blocksPerEpoch.toNat * params.blocksPerEpoch.toNat := hbegins.symm
      _ ≤ height.toNat / before.blocksPerEpoch.toNat * before.blocksPerEpoch.toNat :=
          Nat.mul_le_mul_left _ hblocks
      _ ≤ height.toNat := Nat.div_mul_le_self _ _
  omega

end Params

/-! ## Passes -/

/-- The height of a request that may run an accrual. -/
def Request.height? (q : Request) : Option UInt64 := q.op.tick?.map Block.height

/-- The heights of a run, in the order of its requests. -/
def heights (qs : List Request) : List UInt64 := qs.filterMap Request.height?

/-- The accrual that an answer tells of. -/
def Answer.accrual? : Answer → Option AccrualReport
  | .accrual report => some report
  | .block report => report.accrual
  | _ => none

/-- A pass that charged the interest of an epoch. -/
structure Pass where
  height : UInt64
  /-- The parameters when the pass was made. -/
  params : Params
  epoch : UInt64
deriving DecidableEq

namespace Engine

/-- The pass that an operation made, as its answer tells. -/
def passOf (e : Engine) (op : Operation) (answer : Except Fault Answer) : Option Pass := do
  let block ← op.tick?
  let told ← answer.toOption
  let report ← told.accrual?
  if report.alreadyAccrued then none
  else some { height := block.height, params := e.params, epoch := report.epoch }

/-- The passes of a run, in their order. -/
def passes : Engine → List Request → List Pass
  | _, [] => []
  | e, q :: qs => (e.passOf q.op (e.respond q)).toList ++ (e.next q).passes qs

/-- The engines along a run, from the first to the last. -/
def along : Engine → List Request → List Engine
  | e, [] => [e]
  | e, q :: qs => e :: (e.next q).along qs

/-- The block that an operation runs an accrual for. -/
def accrues? (e : Engine) : Operation → Option Block
  | .accrueEpoch block => some block
  | .beginBlock block => if e.params.isEpochBoundary block.height then some block else none
  | _ => none

section

variable {σ κ : Type} {h : Host σ κ} {e e' : Engine} {op : Operation} {block : Block} {s t : σ}
variable {answer : Except Fault Answer}

theorem tick_of_accrues (haccrues : e.accrues? op = some block) : op.tick? = some block := by
  unfold accrues? at haccrues
  split at haccrues
  · exact haccrues
  · split at haccrues
    · exact haccrues
    · cases haccrues
  · cases haccrues

/-! ### One accrual -/

/-- A block accrues at the boundary of an epoch and nowhere else. -/
theorem accrualStep_cases (h : Host σ κ) (e : Engine) (block : Block) (s : σ) :
    (e.accrues? (.beginBlock block) = some block ∧ accrualStep h e block s =
      (some (accrueEpoch h e block s).1, (accrueEpoch h e block s).2)) ∨
    (e.accrues? (.beginBlock block) = none ∧ accrualStep h e block s = (none, e, s)) := by
  by_cases hboundary : e.params.isEpochBoundary block.height
  · exact .inl ⟨if_pos hboundary, if_pos hboundary⟩
  · exact .inr ⟨if_neg hboundary, if_neg hboundary⟩

/-- In an epoch other than the last accrued, an accrual visits all positions and notes the epoch. -/
theorem accrueEpoch_runs (h : Host σ κ) (s : σ)
    (hnew : e.book.lastEpoch ≠ some (e.params.epochOf block.height)) :
    ∃ visits, (accrueEpoch h e block s).1 = ⟨e.params.epochOf block.height, false, visits⟩ ∧
      visits.map Prod.fst = e.book.positions.keys ∧
      (accrueEpoch h e block s).2.1.book.lastEpoch = some (e.params.epochOf block.height) := by
  unfold accrueEpoch
  rw [if_neg hnew]
  refine ⟨_, rfl, visitEach_keys _ e s, ?_⟩
  show (refreshPools h _ _).book.lastEpoch = _
  rw [refreshPools_eq]
  rfl

/-- What an accrual leaves is the epoch of its block. -/
theorem accrueEpoch_lastEpoch (h : Host σ κ) (e : Engine) (block : Block) (s : σ) :
    (accrueEpoch h e block s).2.1.book.lastEpoch = some (e.params.epochOf block.height) := by
  by_cases hdone : e.book.lastEpoch = some (e.params.epochOf block.height)
  · rw [accrueEpoch_idle hdone]
    exact hdone
  · obtain ⟨visits, -, -, hlast⟩ := accrueEpoch_runs h s hdone
    exact hlast

/-- The pass of an accrual, if it makes one. -/
def passFor (e : Engine) (block : Block) : Option Pass :=
  if e.book.lastEpoch = some (e.params.epochOf block.height) then none
  else some ⟨block.height, e.params, e.params.epochOf block.height⟩

theorem accrueEpoch_passFor (h : Host σ κ) (e : Engine) (block : Block) (s : σ) :
    (if (accrueEpoch h e block s).1.alreadyAccrued then none
      else some (Pass.mk block.height e.params (accrueEpoch h e block s).1.epoch)) =
      e.passFor block ∧
    (accrueEpoch h e block s).2.1.book.lastEpoch =
      ((e.passFor block).map Pass.epoch).or e.book.lastEpoch := by
  unfold passFor
  by_cases hdone : e.book.lastEpoch = some (e.params.epochOf block.height)
  · rw [if_pos hdone, accrueEpoch_idle hdone]
    exact ⟨rfl, rfl⟩
  · obtain ⟨visits, hreport, -, hlast⟩ := accrueEpoch_runs h s hdone
    rw [if_neg hdone, hreport, hlast]
    exact ⟨rfl, rfl⟩

/-- Sweeping the positions does not touch the epoch. -/
theorem sweepVisits_lastEpoch (ks : List PositionKey) (e : Engine) (s : σ) :
    (visitEach (sweepVisit h block) ks e s).2.1.book.lastEpoch = e.book.lastEpoch := by
  refine visitEach_induction (P := fun _ _ e' _ => e'.book.lastEpoch = e.book.lastEpoch)
    ?_ ks [] e s rfl
  intro done k todo e' t hsame
  rcases sweepVisit_engine h block k e' t with hleft | ⟨p, reason, u, o, -, hafter⟩
  · rw [hleft]
    exact hsame
  · rw [hafter]
    exact hsame

/-! ### One request -/

end

end Engine

/-- An operation makes the pass of the accrual that it runs, if it runs one, and the last epoch
after it is the epoch of the pass, or what it was before. -/
theorem Outcome.passes {σ κ : Type} {h : Host σ κ} {e e' : Engine} {op : Operation} {s t : σ}
    {answer : Except Fault Answer} (x : Outcome h e s op answer e' t) :
    e.passOf op answer = (e.accrues? op).bind e.passFor ∧
      e'.book.lastEpoch = ((e.passOf op answer).map Pass.epoch).or e.book.lastEpoch := by
  cases x with
  | refused fault fallible rests =>
      cases op <;> first | exact ⟨rfl, rfl⟩ | cases fallible
  | opened o => exact ⟨rfl, rfl⟩
  | toppedUp o => exact ⟨rfl, rfl⟩
  | closed found o => exact ⟨rfl, rfl⟩
  | forceClosed found judged o => exact ⟨rfl, rfl⟩
  | notEligible health => exact ⟨rfl, rfl⟩
  | accrued block =>
      obtain ⟨hpass, hlast⟩ := accrueEpoch_passFor h e block s
      have hmade : e.passOf (.accrueEpoch block) (.ok (.accrual (accrueEpoch h e block s).1)) =
          e.passFor block := hpass
      rw [hmade]
      exact ⟨rfl, hlast⟩
  | swept block =>
      have hswept : (beginBlock h e block s).2.1.book.lastEpoch =
          (accrualStep h e block s).2.1.book.lastEpoch := sweepVisits_lastEpoch _ _ _
      have hmade : e.passOf (.beginBlock block) (.ok (.block (beginBlock h e block s).1)) =
          (accrualStep h e block s).1.bind fun report => if report.alreadyAccrued then none
            else some ⟨block.height, e.params, report.epoch⟩ := rfl
      rw [hswept, hmade]
      rcases accrualStep_cases h e block s with ⟨haccrues, hstep⟩ | ⟨haccrues, hstep⟩
      · obtain ⟨hpass, hlast⟩ := accrueEpoch_passFor h e block s
        rw [haccrues, hstep, Option.bind_some, Option.bind_some, hpass]
        exact ⟨rfl, hlast⟩
      · rw [haccrues, hstep]
        exact ⟨rfl, rfl⟩
  | configured updated =>
      obtain ⟨_, -, hupdate⟩ := except_bind_eq_ok.1 updated
      obtain ⟨-, hupdate⟩ := refuse_bind_eq_ok.1 hupdate
      cases hupdate
      exact ⟨rfl, rfl⟩
  | administered pools administers fits =>
      cases op <;> first | exact ⟨rfl, rfl⟩ | cases administers
  | drained => exact ⟨rfl, rfl⟩

namespace Engine

variable {e : Engine} {q : Request} {qs : List Request} {x : Pass}

/-- A pass is made at the height of the request, for the epoch of that height under the parameters
in force, and not for the epoch that was accrued last. -/
theorem of_passOf (hpass : e.passOf q.op (e.respond q) = some x) :
    q.height? = some x.height ∧ x.params = e.params ∧ x.epoch = e.params.epochOf x.height ∧
      e.book.lastEpoch ≠ some x.epoch := by
  rw [(e.next_outcome q).passes.1] at hpass
  obtain ⟨block, haccrues, hpass⟩ := Option.bind_eq_some_iff.1 hpass
  unfold passFor at hpass
  split at hpass
  · cases hpass
  · next hnew =>
    cases hpass
    refine ⟨?_, rfl, rfl, hnew⟩
    rw [Request.height?, tick_of_accrues haccrues]
    rfl

theorem next_lastEpoch (e : Engine) (q : Request) : (e.next q).book.lastEpoch =
    ((e.passOf q.op (e.respond q)).map Pass.epoch).or e.book.lastEpoch :=
  (e.next_outcome q).passes.2

/-! ### Runs -/

theorem heights_cons (q : Request) (qs : List Request) :
    heights (q :: qs) = q.height?.toList ++ heights qs := by
  unfold heights
  rw [List.filterMap_cons]
  cases q.height? with
  | none => rfl
  | some height => rfl

/-- In a run with ordered heights, those before a block stand in order to its height. -/
theorem heights_before {R : UInt64 → UInt64 → Prop} {pre post : List Request} {block : Block}
    (hheights : (heights (pre ++ q :: post)).Pairwise R) (htick : q.op.tick? = some block) :
    ∀ height ∈ heights pre, R height block.height := by
  intro height hheight
  have hq : q.height? = some block.height := congrArg (Option.map Block.height) htick
  unfold heights at hheights hheight
  rw [List.filterMap_append] at hheights
  have hmem : block.height ∈ (q :: post).filterMap Request.height? :=
    List.mem_filterMap.2 ⟨q, List.mem_cons_self, hq⟩
  exact (List.pairwise_append.1 hheights).2.2 height hheight block.height hmem

/-- After a run the last epoch is that of its last pass, or what it was before. -/
theorem run_lastEpoch (e : Engine) (qs : List Request) : (e.run qs).book.lastEpoch =
    ((e.passes qs).getLast?.map Pass.epoch).or e.book.lastEpoch := by
  induction qs generalizing e with
  | nil => rfl
  | cons q qs ih =>
      rw [run, ih, next_lastEpoch, passes, List.getLast?_append, Option.map_or, Option.or_assoc]
      cases e.passOf q.op (e.respond q) with
      | none => rfl
      | some x => rfl

/-- Each pass of a run was made by one of its engines, at one of its heights. -/
theorem of_mem_passes (hx : x ∈ e.passes qs) : x.height ∈ heights qs ∧
    ∃ before ∈ e.along qs, x.params = before.params ∧
      x.epoch = before.params.epochOf x.height := by
  induction qs generalizing e with
  | nil => cases hx
  | cons q qs ih =>
      rw [heights_cons, List.mem_append]
      rcases List.mem_append.1 hx with hfirst | hrest
      · obtain ⟨hheight, hparams, hepoch, -⟩ := of_passOf (Option.mem_toList.1 hfirst)
        refine ⟨.inl (Option.mem_toList.2 hheight), e, List.mem_cons_self, hparams, hepoch⟩
      · obtain ⟨hheight, before, hbefore, hmade⟩ := ih hrest
        exact ⟨.inr hheight, before, List.mem_cons_of_mem e hbefore, hmade⟩

/-! ## Epochs of a fixed length -/

/-- The epochs of a run's passes ascend beyond the last epoch before it, if the length of epochs is
fixed, heights do not decrease, and none of them lies before the last epoch. -/
theorem passes_ascend {params : Params}
    (hfixed : ∀ x ∈ e.along qs, x.params.epochLength = params.epochLength)
    (hheights : (heights qs).Pairwise (· ≤ ·))
    (hlast : ∀ last, e.book.lastEpoch = some last →
      ∀ height ∈ heights qs, last ≤ params.epochOf height) :
    ((e.passes qs).map Pass.epoch).Pairwise (· < ·) ∧
      ∀ last, e.book.lastEpoch = some last → ∀ x ∈ e.passes qs, last < x.epoch := by
  induction qs generalizing e with
  | nil => exact ⟨.nil, fun _ _ x hx => (List.not_mem_nil hx).elim⟩
  | cons q qs ih =>
      rw [heights_cons] at hheights hlast
      obtain ⟨-, hrestHeights, hfirst⟩ := List.pairwise_append.1 hheights
      have hrestFixed : ∀ x ∈ (e.next q).along qs, x.params.epochLength = params.epochLength :=
        fun x hx => hfixed x (List.mem_cons_of_mem e hx)
      have hepochs := Params.epochOf_congr (hfixed e List.mem_cons_self)
      have hnext := next_lastEpoch e q
      rw [passes]
      cases hpass : e.passOf q.op (e.respond q) with
      | none =>
          -- without a pass the last epoch is what it was
          rw [hpass] at hnext
          change (e.next q).book.lastEpoch = e.book.lastEpoch at hnext
          have hrest := ih hrestFixed hrestHeights fun last hsame height hheight =>
            hlast last (hnext ▸ hsame) height (List.mem_append_right _ hheight)
          rw [hnext] at hrest
          exact hrest
      | some x =>
          obtain ⟨hheight, -, hepoch, hnew⟩ := of_passOf hpass
          rw [hepochs] at hepoch
          rw [hpass] at hnext
          change (e.next q).book.lastEpoch = some x.epoch at hnext
          have hheight : x.height ∈ q.height?.toList := Option.mem_toList.2 hheight
          obtain ⟨hascend, hbeyond⟩ := ih hrestFixed hrestHeights fun last hsame height hlater => by
            rw [hnext] at hsame
            cases hsame
            rw [hepoch]
            exact params.epochOf_le (hfirst _ hheight _ hlater)
          have hbeyond := hbeyond x.epoch hnext
          -- the pass is not for the last epoch, and not for one before it
          have hlater : ∀ last, e.book.lastEpoch = some last → last < x.epoch := by
            intro last hsame
            have hne : last ≠ x.epoch := fun heq => hnew (heq ▸ hsame)
            refine UInt64.lt_of_le_of_ne ?_ hne
            rw [hepoch]
            exact hlast last hsame x.height (List.mem_append_left _ hheight)
          refine ⟨List.pairwise_cons.2 ⟨fun epoch hmem => ?_, hascend⟩, ?_⟩
          · obtain ⟨y, hy, rfl⟩ := List.mem_map.1 hmem
            exact hbeyond y hy
          · intro last hsame y hy
            rcases List.mem_cons.1 hy with rfl | hy
            · exact hlater last hsame
            · exact UInt64.lt_trans (hlater last hsame) (hbeyond y hy)

/-- An epoch that had its pass is the last epoch as long as no height is beyond it. -/
theorem lastEpoch_of_accrued {params : Params} {height : UInt64}
    (hfixed : ∀ x ∈ e.along qs, x.params.epochLength = params.epochLength)
    (hascend : ((e.passes qs).map Pass.epoch).Pairwise (· < ·))
    (hbefore : ∀ height' ∈ heights qs, height' ≤ height)
    (haccrued : params.epochOf height ∈ (e.passes qs).map Pass.epoch) :
    (e.run qs).book.lastEpoch = some (params.epochOf height) := by
  obtain ⟨x, hx, hepoch⟩ := List.mem_map.1 haccrued
  have hne : e.passes qs ≠ [] := List.ne_nil_of_mem hx
  let last := (e.passes qs).getLast hne
  have hlast : last ∈ e.passes qs := List.getLast_mem hne
  have hrun : (e.run qs).book.lastEpoch = some last.epoch := by
    rw [run_lastEpoch, List.getLast?_eq_getLast_of_ne_nil hne]
    rfl
  -- the last pass is for an epoch between that of `x` and that of the height, which are the same
  have hlower : params.epochOf height ≤ last.epoch := by
    rw [← hepoch]
    have hle : (e.passes qs).Pairwise fun x y => x.epoch ≤ y.epoch :=
      (List.pairwise_map.1 hascend).imp UInt64.le_of_lt
    exact hle.rel_getLast_of_rel_getLast_getLast hx UInt64.le_rfl
  have hupper : last.epoch ≤ params.epochOf height := by
    obtain ⟨hheight, before, hbeforeFixed, -, hmade⟩ := of_mem_passes hlast
    rw [hmade, Params.epochOf_congr (hfixed before hbeforeFixed)]
    exact params.epochOf_le (hbefore _ hheight)
  rw [hrun, UInt64.le_antisymm hupper hlower]

/-- What an accrual comes to in an epoch that was accrued: nothing is done, and it is said so. -/
structure Idle (e : Engine) (q : Request) (block : Block) : Prop where
  accrual : accrueEpoch q.host e block q.state =
    (⟨e.params.epochOf block.height, true, []⟩, e, q.state)
  /-- An accrual that was asked for is all that its request does. -/
  asked : q.op = .accrueEpoch block → e.perform q.host q.op q.state =
    (.ok (.accrual ⟨e.params.epochOf block.height, true, []⟩), e, q.state)
  /-- At a block the sweep begins where the accrual began. -/
  begun : q.op = .beginBlock block → e.params.isEpochBoundary block.height = true →
    accrualStep q.host e block q.state =
      (some ⟨e.params.epochOf block.height, true, []⟩, e, q.state)

theorem idle_of_lastEpoch {block : Block}
    (hdone : e.book.lastEpoch = some (e.params.epochOf block.height)) : Idle e q block where
  accrual := accrueEpoch_idle hdone
  asked := by
    intro hop
    rw [hop]
    simp only [perform]
    rw [accrueEpoch_idle hdone]
  begun := by
    intro hop hboundary
    unfold accrualStep
    rw [if_pos hboundary, accrueEpoch_idle hdone]

theorem along_append (e : Engine) (pre : List Request) (q : Request) (post : List Request) :
    (∀ x ∈ e.along pre, x ∈ e.along (pre ++ q :: post)) ∧
      e.run pre ∈ e.along (pre ++ q :: post) := by
  induction pre generalizing e with
  | nil =>
      refine ⟨fun x hx => ?_, List.mem_cons_self⟩
      rw [List.mem_singleton.1 hx]
      exact List.mem_cons_self
  | cons p pre ih =>
      obtain ⟨hall, hlast⟩ := ih (e.next p)
      refine ⟨fun x hx => ?_, List.mem_cons_of_mem e hlast⟩
      rcases List.mem_cons.1 hx with rfl | hx
      · exact List.mem_cons_self
      · exact List.mem_cons_of_mem e (hall x hx)

theorem passes_append (e : Engine) (pre post : List Request) :
    e.passes (pre ++ post) = e.passes pre ++ (e.run pre).passes post := by
  induction pre generalizing e with
  | nil => rfl
  | cons p pre ih =>
      rw [List.cons_append, passes, passes, ih, List.append_assoc]
      rfl

/-- **An epoch is accrued once.** In a run in which the length of epochs never changes and heights
do not decrease, the passes are for ascending epochs, so that no epoch has two of them; and every
accrual in an epoch that had its pass does nothing. -/
theorem epochs_accrued_once {params : Params} {e : Engine} (hnew : create params = .ok e)
    (qs : List Request)
    (hfixed : ∀ x ∈ e.along qs, x.params.epochLength = params.epochLength)
    (hheights : (heights qs).Pairwise (· ≤ ·)) :
    ((e.passes qs).map Pass.epoch).Pairwise (· < ·) ∧
      (∀ x ∈ e.passes qs, x.epoch = params.epochOf x.height) ∧
      ∀ pre q post block, qs = pre ++ q :: post → q.op.tick? = some block →
        params.epochOf block.height ∈ (e.passes pre).map Pass.epoch →
          Idle (e.run pre) q block := by
  have hnone : e.book.lastEpoch = none := by
    rw [create_eq_ok hnew]
    rfl
  have hascend : ((e.passes qs).map Pass.epoch).Pairwise (· < ·) := by
    refine (passes_ascend hfixed hheights fun last hlast => ?_).1
    rw [hnone] at hlast
    cases hlast
  refine ⟨hascend, fun x hx => ?_, ?_⟩
  · obtain ⟨-, before, hbefore, -, hepoch⟩ := of_mem_passes hx
    rw [hepoch, Params.epochOf_congr (hfixed before hbefore)]
  · rintro pre q post block rfl htick haccrued
    obtain ⟨halong, hrun⟩ := along_append e pre q post
    rw [passes_append, List.map_append] at hascend
    refine idle_of_lastEpoch ?_
    rw [Params.epochOf_congr (hfixed _ hrun)]
    exact lastEpoch_of_accrued (fun x hx => hfixed x (halong x hx))
      (List.pairwise_append.1 hascend).1 (heights_before hheights htick) haccrued

/-- In a run with epochs of ten blocks the accrual that is asked for at height 15 finds its epoch
accrued, and the block at height 20 begins another. -/
theorem tenth_block_accrues_its_epoch :
    let params := { Params.standard with epochLength := 10 }
    let e : Engine := { params, book := .empty, events := [] }
    let qs := Sample.inTurn e Chain.initial
      [.createPool 1 (.tenths 50) true,
       .openPosition Sample.opening ⟨1, 0⟩,
       .beginBlock ⟨10, 788400⟩,
       .accrueEpoch ⟨15, 1576800⟩,
       .beginBlock ⟨20, 2365200⟩]
    (e.passes qs).map Pass.epoch = [1, 2] ∧ (heights qs).Pairwise (· ≤ ·) ∧
      ∀ pre q post block, qs = pre ++ q :: post → q.op.tick? = some block →
        params.epochOf block.height ∈ (e.passes pre).map Pass.epoch → Idle (e.run pre) q block :=
  have hheights : (heights (Sample.inTurn _ Chain.initial _)).Pairwise (· ≤ ·) := by
    decide +kernel
  ⟨by decide +kernel, hheights, (epochs_accrued_once rfl _ (by decide +kernel) hheights).2.2⟩

end Engine

/-! ## Epochs of a changing length -/

/-- What the report of a block tells of the accrual, by an engine whose last pass is known. -/
structure BlockReport.TellsOfAccrual (r : BlockReport) (e : Engine) (last : Option Pass)
    (block : Block) : Prop where
  between : e.params.isEpochBoundary block.height = false → r.accrual = none
  boundary : e.params.isEpochBoundary block.height = true → ∃ accrual, r.accrual = some accrual ∧
    accrual.epoch = e.params.epochOf block.height ∧
    (accrual.alreadyAccrued = false → accrual.visits.map Prod.fst = e.book.positions.keys) ∧
    /- A boundary is passed over exactly where the last pass was for an epoch of the same number,
    and epochs were shorter then. -/
    (accrual.alreadyAccrued = true ↔ ∃ x, last = some x ∧ x.epoch = accrual.epoch ∧
      x.params.blocksPerEpoch < e.params.blocksPerEpoch)

/-- Epochs of one block, of which the first is accrued, are made two blocks long. -/
def Sample.lengthening : List Operation :=
  [.createPool 1 (.tenths 50) true,
   .openPosition opening ⟨1, 0⟩,
   .beginBlock ⟨1, 0⟩,
   .updateParams { Params.standard with epochLength := 2 }]

/-- The same as a run. -/
def Sample.lengthened : List Request := inTurn engine Chain.initial lengthening

namespace Engine

/-- A pass that was made before a boundary, for an epoch of the same number as the one that begins
there, was made when epochs were shorter. -/
theorem blocksPerEpoch_lt_of_boundary {e : Engine} {pre : List Request} {params : Params}
    {height : UInt64} {x : Pass} (hx : x ∈ e.passes pre)
    (hbefore : ∀ earlier ∈ heights pre, earlier < height)
    (hboundary : params.isEpochBoundary height = true)
    (hepoch : x.epoch = params.epochOf height) :
    x.params.blocksPerEpoch < params.blocksPerEpoch := by
  obtain ⟨hheight, before, -, hparams, hmade⟩ := of_mem_passes hx
  -- epochs that were as long as now would have had other numbers
  refine UInt64.not_le.1 fun hle => ?_
  rw [hparams] at hle
  refine Params.epochOf_ne_of_boundary _ before.params hboundary (hbefore _ hheight) hle ?_
  rw [← hmade, hepoch]

/-- **Boundaries of epochs.** In a run with ascending heights, whatever parameters are set on the
way, a block accrues only at the boundary of an epoch, and there it makes a pass over all open
positions; but for a boundary at which an epoch begins that has the number of the one accrued last,
which takes a lengthening of epochs since. -/
theorem boundaries_accrued {params : Params} {e : Engine} (hnew : create params = .ok e)
    (pre : List Request) (q : Request) (block : Block) (hop : q.op = .beginBlock block)
    (hheights : (heights (pre ++ [q])).Pairwise (· < ·)) :
    ∃ report, (e.run pre).respond q = .ok (.block report) ∧
      report.TellsOfAccrual (e.run pre) (e.passes pre).getLast? block := by
  refine ⟨(beginBlock q.host (e.run pre) block q.state).1, ?_, ?_⟩
  · unfold respond
    rw [hop]
    rfl
  have hreport : (beginBlock q.host (e.run pre) block q.state).1.accrual =
      (accrualStep q.host (e.run pre) block q.state).1 := rfl
  constructor
  case between =>
    intro hboundary
    rw [hreport]
    unfold accrualStep
    rw [hboundary]
    rfl
  case boundary =>
    intro hboundary
    have hlast : (e.run pre).book.lastEpoch = (e.passes pre).getLast?.map Pass.epoch := by
      rw [run_lastEpoch, create_eq_ok hnew]
      exact Option.or_none
    rw [hreport]
    unfold accrualStep
    rw [if_pos hboundary]
    refine ⟨(accrueEpoch q.host (e.run pre) block q.state).1, rfl, ?_⟩
    by_cases hdone : (e.run pre).book.lastEpoch = some ((e.run pre).params.epochOf block.height)
    · rw [accrueEpoch_idle hdone]
      refine ⟨rfl, fun hran => Bool.noConfusion hran, fun _ => ?_, fun _ => rfl⟩
      rw [hlast] at hdone
      obtain ⟨x, hx, hepoch⟩ := Option.map_eq_some_iff.1 hdone
      have htick : q.op.tick? = some block := by
        rw [hop]
        rfl
      exact ⟨x, hx, hepoch, blocksPerEpoch_lt_of_boundary (List.mem_of_getLast? hx)
        (heights_before hheights htick) hboundary hepoch⟩
    · obtain ⟨visits, hran, hvisits, -⟩ := accrueEpoch_runs q.host q.state hdone
      rw [hran]
      refine ⟨rfl, fun _ => hvisits, fun hidle => Bool.noConfusion hidle, ?_⟩
      rintro ⟨x, hx, hepoch, -⟩
      refine absurd ?_ hdone
      rw [hlast, hx, Option.map_some, hepoch]

/-- At height 4 the second of the longer epochs begins, and Alice is charged. -/
theorem boundary_after_lengthening :
    let q : Request := ⟨Chain.host, (Sample.world Sample.lengthening).2, .beginBlock ⟨4, 7884000⟩⟩
    ∃ report, (Sample.engine.run Sample.lengthened).respond q = .ok (.block report) ∧
      (report.accrual.map AccrualReport.accrued = some [⟨Sample.alice, 1⟩]) ∧
      report.TellsOfAccrual (Sample.engine.run Sample.lengthened)
        (Sample.engine.passes Sample.lengthened).getLast? ⟨4, 7884000⟩ := by
  intro q
  obtain ⟨report, hanswer, htells⟩ :=
    boundaries_accrued Sample.engine_new Sample.lengthened q ⟨4, 7884000⟩ rfl (by decide +kernel)
  refine ⟨report, hanswer, ?_, htells⟩
  have hcharged : toldBy
      (fun answer => (answer.accrual?.map AccrualReport.accrued).toList)
      ((Sample.engine.run Sample.lengthened).respond q) = [[⟨Sample.alice, 1⟩]] := by
    decide +kernel
  rw [hanswer] at hcharged
  exact Option.toList_eq_singleton_iff.1 hcharged

/-- The first of the longer epochs begins at height 2 and gets no pass, since the last of the
shorter ones had its number. So it is not true of all runs with ascending heights, in which no
accrual is asked for, that every boundary is accrued. -/
theorem not_all_boundaries_accrued :
    ¬ ∀ (params : Params) (e : Engine) (pre : List Request) (q : Request) (block : Block),
      create params = .ok e → q.op = .beginBlock block →
      (heights (pre ++ [q])).Pairwise (· < ·) →
      (∀ r ∈ pre, ∀ asked, r.op ≠ .accrueEpoch asked) →
      (e.run pre).params.isEpochBoundary block.height = true →
      ∃ report accrual, (e.run pre).respond q = .ok (.block report) ∧
        report.accrual = some accrual ∧ accrual.alreadyAccrued = false ∧
        accrual.visits.map Prod.fst = (e.run pre).book.positions.keys := by
  intro hall
  let q : Request := ⟨Chain.host, (Sample.world Sample.lengthening).2, .beginBlock ⟨2, 7884000⟩⟩
  have hunasked : ∀ r ∈ Sample.lengthened, ∀ asked, r.op ≠ .accrueEpoch asked := by
    intro r hr asked hop
    have hlisted : r.op ∈ Sample.lengthened.map Request.op := List.mem_map_of_mem hr
    rw [hop] at hlisted
    simp [Sample.lengthened, Sample.lengthening, Sample.inTurn] at hlisted
  obtain ⟨report, accrual, hanswer, haccrual, hran, -⟩ :=
    hall .standard Sample.engine Sample.lengthened q ⟨2, 7884000⟩ Sample.engine_new rfl
      (by decide +kernel) hunasked (by decide +kernel)
  have hmissed : toldBy
      (fun answer => (answer.accrual?.map AccrualReport.alreadyAccrued).toList)
      ((Sample.engine.run Sample.lengthened).respond q) = [true] := by
    decide +kernel
  rw [hanswer] at hmissed
  have hidle : report.accrual.map AccrualReport.alreadyAccrued = some true :=
    Option.toList_eq_singleton_iff.1 hmissed
  rw [haccrual, Option.map_some, hran] at hidle
  cases hidle

end Engine

end LeveragedLp
