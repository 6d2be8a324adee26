import LeveragedLp.Proofs.Exposure
import LeveragedLp.Proofs.Moves

/-!
# The lending ledger

What the engine borrows and what it charges as interest is on the books of its positions until it
is repaid, paid as interest, or written off. Over a run the two sides are the same number of units
(`run_ledger`): nothing that is owed gets lost, and nothing is owed twice. Each turn of an
operation balances (`Turn.balanced`): the journal tells what was borrowed and discharged in it,
and the records of the positions what is outstanding before and after. Under the policy that
carries unpaid interest apart the outstanding debt includes what is carried; the policy changes
only where nothing is outstanding.
-/

set_option autoImplicit false

namespace LeveragedLp

open Engine

/-! ## The two sides of the ledger -/

namespace Transfer

/-- The units that a transfer borrows. -/
def borrowedUnits : Transfer → Nat
  | borrowed _ amount => amount.units
  | _ => 0

/-- The units of debt that a transfer repays. -/
def repaidUnits : Transfer → Nat
  | repaid _ amount => amount.units
  | _ => 0

/-- The units that a transfer pays as interest. -/
def interestUnits : Transfer → Nat
  | paidInterest _ amount => amount.units
  | _ => 0

/-- The units of debt that a transfer writes off. -/
def writtenOffUnits : Transfer → Nat
  | wroteOff amount => amount.units
  | _ => 0

/-- The units of debt that a transfer does away with, in whatever way. -/
def dischargedUnits : Transfer → Nat
  | repaid _ amount => amount.units
  | paidInterest _ amount => amount.units
  | wroteOff amount => amount.units
  | _ => 0

theorem dischargedUnits_eq (x : Transfer) :
    x.dischargedUnits = x.repaidUnits + x.interestUnits + x.writtenOffUnits := by
  cases x <;> simp [dischargedUnits, repaidUnits, interestUnits, writtenOffUnits]

end Transfer

namespace Journal

/-- What the calls of a journal amount to. -/
def total (f : Transfer → Nat) (j : Journal) : Nat := (j.map fun x => f x.moved).sum

theorem total_append (f : Transfer → Nat) (i j : Journal) :
    total f (i ++ j) = total f i + total f j := by
  unfold total
  rw [List.map_append, List.sum_append]

theorem total_of_wrote {σ : Type} {s t : σ × Journal} {moves : List Transfer}
    (h : Wrote s t moves) (f : Transfer → Nat) : total f t.2 = total f s.2 + (moves.map f).sum := by
  obtain ⟨new, hnew, rfl⟩ := h
  rw [hnew, total_append, List.map_map]
  rfl

theorem total_discharged (j : Journal) :
    total Transfer.dischargedUnits j = total Transfer.repaidUnits j +
      total Transfer.interestUnits j + total Transfer.writtenOffUnits j := by
  unfold total
  simp only [Transfer.dischargedUnits_eq]
  rw [List.sum_map_add, List.sum_map_add]

end Journal

/-- What all open positions owe, under the policy in force. -/
def Engine.outstanding (e : Engine) : Nat :=
  e.book.positions.sum fun p => p.debtUnits e.params.interestPolicy

/-! ## Balance -/

/-- A row of transfers balances a change of what is outstanding: what it borrows and what is
charged is what it discharges or what is outstanding more. -/
def Balances (moves : List Transfer) (before due after : Nat) : Prop :=
  (moves.map Transfer.borrowedUnits).sum + due + before =
    (moves.map Transfer.dischargedUnits).sum + after

theorem Balances.append {moves moves' : List Transfer} {a b c due due' : Nat}
    (h : Balances moves a due b) (h' : Balances moves' b due' c) :
    Balances (moves ++ moves') a (due + due') c := by
  unfold Balances at h h' ⊢
  rw [List.map_append, List.map_append, List.sum_append, List.sum_append]
  omega

section

variable {σ κ : Type} {h : Host σ κ} {op : Operation} {e e' : Engine} {block : Block}

theorem Opening.balances {s t : σ} {r : OpenRequest} (o : Opening h r block e s t)
    (principal : Amount) (hnew : e.book.positions.get? o.position.key = none) :
    Balances (o.moves principal) e.outstanding 0 o.after.outstanding := by
  have hdebt : o.position.debtUnits e.params.interestPolicy = o.liabilities.units := by
    cases e.params.interestPolicy with
    | stacked => rfl
    | separate => rfl
  have hafter : o.after.outstanding = o.liabilities.units + e.outstanding := by
    rw [← hdebt]
    exact Registry.sum_insert_new _ hnew
  -- only the loan is borrowed, whether or not the collateral was swapped
  have hborrowed : ((o.moves principal).map Transfer.borrowedUnits).sum = o.liabilities.units := by
    unfold Opening.moves
    rw [List.map_append, List.map_append, List.sum_append, List.sum_append,
      sum_unlessZero _ fun h0 => h0]
    by_cases hsame : r.collateral.denom = r.borrowAsset
    · simp [hsame, Transfer.borrowedUnits]
    · simp [hsame, Transfer.borrowedUnits]
  have hdischarged : ((o.moves principal).map Transfer.dischargedUnits).sum = 0 := by
    unfold Opening.moves
    rw [List.map_append, List.map_append, List.sum_append, List.sum_append,
      sum_unlessZero _ fun _ => rfl]
    by_cases hsame : r.collateral.denom = r.borrowAsset
    · rw [if_pos hsame]
      rfl
    · rw [if_neg hsame]
      rfl
  unfold Balances
  omega

theorem TopUp.balances {s t : σ} {k : PositionKey} {coin : Coin} (o : TopUp h k coin e s t) :
    Balances o.moves e.outstanding 0 o.after.outstanding := by
  have hdebt : ∀ policy, o.position.debtUnits policy = o.before.debtUnits policy := by
    intro policy
    rw [o.position_eq]
    cases policy with
    | stacked => rfl
    | separate => rfl
  have hsum : o.before.debtUnits e.params.interestPolicy + o.after.outstanding =
      o.position.debtUnits e.params.interestPolicy + e.outstanding :=
    Registry.sum_insert_old (fun p => p.debtUnits e.params.interestPolicy)
      (o.continues.get?_key o.found_eq)
  rw [hdebt] at hsum
  unfold Balances
  show 0 + 0 + e.outstanding = 0 + o.after.outstanding
  omega

theorem Charge.balances {s t : σ} {k : PositionKey} (o : Charge h k block e s t) :
    Balances o.moves e.outstanding o.accrual.due.units o.after.outstanding := by
  have hcharged := planEpoch_eq_ok o.plan_eq
  have hsum : o.before.debtUnits e.params.interestPolicy + o.after.outstanding =
      o.position.debtUnits e.params.interestPolicy + e.outstanding :=
    Registry.sum_insert_old (fun p => p.debtUnits e.params.interestPolicy)
      (hcharged.toContinues.get?_key o.found_eq)
  have hborrowed : (o.moves.map Transfer.borrowedUnits).sum = 0 := sum_unlessZero _ fun _ => rfl
  have hdischarged : (o.moves.map Transfer.dischargedUnits).sum = o.accrual.paid.units :=
    sum_unlessZero _ fun h0 => h0
  have hdebt := hcharged.debt
  unfold Balances
  omega

/-- The debt is repaid as far as the funds reach, and the rest of it is written off. -/
theorem Distribution.discharged {s t : σ} {p : Position} {policy : InterestPolicy}
    (d : Distribution h p policy s t) :
    (d.moves.map Transfer.dischargedUnits).sum = p.debtUnits policy := by
  have hdebt := Position.debt_eq_ok.1 d.debt_eq
  have hshortfall := Amount.sub_eq_ok.1 d.shortfall_eq
  unfold Distribution.moves
  simp only [List.map_append, List.sum_append]
  rw [sum_unlessZero _ fun _ => rfl, sum_unlessZero _ fun h0 => h0, sum_unlessZero _ fun h0 => h0,
    sum_unlessZero _ fun _ => rfl]
  -- of the four calls the second repays and the third writes off
  show 0 + (d.debt.least d.funds).units + (d.shortfall.units + 0) + 0 = _
  omega

theorem Distribution.borrowed {s t : σ} {p : Position} {policy : InterestPolicy}
    (d : Distribution h p policy s t) : (d.moves.map Transfer.borrowedUnits).sum = 0 := by
  unfold Distribution.moves
  simp only [List.map_append, List.sum_append]
  rw [sum_unlessZero _ fun _ => rfl, sum_unlessZero _ fun _ => rfl, sum_unlessZero _ fun _ => rfl,
    sum_unlessZero _ fun _ => rfl]
  rfl

theorem Closing.balances {s t : σ} {k : PositionKey} {p : Position} {reason : CloseReason}
    (o : Closing h p reason block e s t) (hfound : e.book.position k = .ok p) :
    Balances o.paid.moves e.outstanding o.accrual.due.units o.after.outstanding := by
  have hget := Book.position_eq_ok.1 hfound
  obtain ⟨hcharged, hpaid⟩ := chargeUp_eq_ok o.charge_eq
  have hkey : o.position.key = k := hcharged.key.trans (Registry.key_of_get? hget)
  have hsum : e.outstanding = p.debtUnits e.params.interestPolicy + o.after.outstanding := by
    unfold Closing.after
    rw [hkey]
    exact Registry.sum_of_get? _ hget
  -- the interest is charged to the debt in full, so that settling the debt settles it too
  have hdebt := hcharged.debt
  have hzero : o.accrual.paid.units = 0 := by rw [hpaid]; rfl
  have hsettled : o.position.debtUnits e.params.interestPolicy =
      o.charged.debtUnits e.params.interestPolicy := by
    cases e.params.interestPolicy with
    | stacked => rfl
    | separate => rfl
  have hdischarged := o.paid.discharged
  have hborrowed := o.paid.borrowed
  change _ = o.position.debtUnits _ at hdischarged
  unfold Balances
  omega

end

/-! ## Turns, operations and runs -/

section

variable {σ κ : Type} {h : Host σ κ} {op : Operation} {e e' : Engine} {s t : σ × Journal}
variable {n m d : Nat}

/-- What rests may change the policy, but only where nothing is outstanding. -/
theorem Engine.SameFunds.outstanding_eq (hsame : e.SameFunds e') :
    e'.outstanding = e.outstanding := by
  unfold Engine.outstanding
  rw [hsame.positions]
  rcases hsame.policy with hpolicy | hnone
  · rw [hpolicy]
  · unfold Registry.sum
    rw [hnone]
    rfl

/-- Every turn balances. -/
theorem Turn.balanced (x : Turn h.journaled op e s m d e' t) (he : e.book.Sound n) :
    ∃ moves, Wrote s t moves ∧ Balances moves e.outstanding d e'.outstanding := by
  cases x with
  | rest same rests =>
      refine ⟨[], rests.wrote, ?_⟩
      rw [same.outstanding_eq]
      rfl
  | track pool leverageMax enabled untracked => exact ⟨[], .nothing rfl, rfl⟩
  | revise tracked revises => exact ⟨[], .nothing rfl, rfl⟩
  | openPosition asked o =>
      obtain ⟨principal, -, hwrote⟩ := o.wrote
      exact ⟨o.moves principal, hwrote, o.balances principal (he.get?_next rfl)⟩
  | topUp asked o => exact ⟨o.moves, o.wrote, o.balances⟩
  | charge o => exact ⟨o.moves, o.wrote, o.balances⟩
  | close found o => exact ⟨o.paid.moves, o.paid.wrote, o.balances found⟩

theorem Turns.balanced (x : Turns h.journaled op e s m d e' t) (he : e.book.Sound n)
    (hn : n + m < twoPow 64 - 1) :
    ∃ moves, Wrote s t moves ∧ Balances moves e.outstanding d e'.outstanding := by
  induction x with
  | none => exact ⟨[], .nothing rfl, rfl⟩
  | more before last ih =>
      -- the last turn finds a sound book, on which no new number is in use
      rw [← Nat.add_assoc] at hn
      have hbefore := Nat.lt_of_le_of_lt (Nat.le_add_right _ _) hn
      obtain ⟨moves, hwrote, hbalance⟩ := ih hbefore
      obtain ⟨moves', hwrote', hbalance'⟩ := last.balanced (before.sound he hbefore)
      exact ⟨moves ++ moves', hwrote.trans hwrote', hbalance.append hbalance'⟩

end

namespace Engine

/-- The two sides of the ledger over one request. -/
theorem next_balanced {e : Engine} {n : Nat} (he : e.book.Sound n) (q : Request)
    (hn : n + countOk Answer.openings (e.respond q) < twoPow 64 - 1) :
    Journal.total Transfer.borrowedUnits (e.committed q) +
        countOk Answer.charges (e.respond q) + e.outstanding =
      Journal.total Transfer.dischargedUnits (e.committed q) + (e.next q).outstanding := by
  obtain ⟨t, hturns⟩ := turns_of_request e q
  obtain ⟨moves, hwrote, hbalance⟩ := hturns.balanced he hn
  have hborrowed := Journal.total_of_wrote hwrote Transfer.borrowedUnits
  have hdischarged := Journal.total_of_wrote hwrote Transfer.dischargedUnits
  -- the journal of a request begins empty
  change Journal.total _ (e.committed q) = 0 + _ at hborrowed hdischarged
  unfold Balances at hbalance
  omega

/-- The two sides of the ledger after a run, from any sound book. -/
theorem run_balanced {e : Engine} {n : Nat} (he : e.book.Sound n) (qs : List Request)
    (hn : n + e.openings qs < twoPow 64 - 1) :
    Journal.total Transfer.borrowedUnits (e.journal qs) + e.charges qs + e.outstanding =
      Journal.total Transfer.dischargedUnits (e.journal qs) + (e.run qs).outstanding := by
  induction qs generalizing e n with
  | nil => rfl
  | cons q qs ih =>
      obtain ⟨hfirst, hlast⟩ := openings_cons_lt hn
      have hstep := next_balanced he q hfirst
      have hrest := ih (next_sound he q hfirst) hlast
      have hcharges : e.charges (q :: qs) =
          countOk Answer.charges (e.respond q) + (e.next q).charges qs := total_cons _ e q qs
      -- what is outstanding after the first request is what the rest of the run begins with
      calc Journal.total Transfer.borrowedUnits (e.journal (q :: qs)) + e.charges (q :: qs) +
            e.outstanding
          = (Journal.total Transfer.borrowedUnits (e.committed q) +
              countOk Answer.charges (e.respond q) + e.outstanding) +
            (Journal.total Transfer.borrowedUnits ((e.next q).journal qs) +
              (e.next q).charges qs) := by
                rw [journal, Journal.total_append, hcharges]
                omega
        _ = Journal.total Transfer.dischargedUnits (e.committed q) +
            (Journal.total Transfer.borrowedUnits ((e.next q).journal qs) +
              (e.next q).charges qs + (e.next q).outstanding) := by
                rw [hstep]
                omega
        _ = Journal.total Transfer.dischargedUnits (e.committed q) +
            (Journal.total Transfer.dischargedUnits ((e.next q).journal qs) +
              ((e.next q).run qs).outstanding) := by rw [hrest]
        _ = Journal.total Transfer.dischargedUnits (e.journal (q :: qs)) +
            (e.run (q :: qs)).outstanding := by
                rw [journal, Journal.total_append, run, Nat.add_assoc]

/-- **The lending ledger.** Over any run from a new engine, with any hosts, what the calls that
stand borrowed and what was charged as interest is what they repaid, paid as interest and wrote
off, and what the open positions owe; as long as fewer than `2 ^ 64 - 1` positions were opened. -/
theorem run_ledger {params : Params} {e : Engine} (hnew : create params = .ok e)
    (qs : List Request) (hfew : e.openings qs < twoPow 64 - 1) :
    Journal.total Transfer.borrowedUnits (e.journal qs) + e.charges qs =
      Journal.total Transfer.repaidUnits (e.journal qs) +
      Journal.total Transfer.interestUnits (e.journal qs) +
      Journal.total Transfer.writtenOffUnits (e.journal qs) + (e.run qs).outstanding := by
  have hempty : e.book.Sound 0 := by
    rw [create_eq_ok hnew]
    exact .empty
  have hnothing : e.outstanding = 0 := by
    rw [create_eq_ok hnew]
    rfl
  rw [← Nat.zero_add (e.openings qs)] at hfew
  have hbalance := run_balanced hempty qs hfew
  rw [hnothing, Nat.add_zero, Journal.total_discharged] at hbalance
  exact hbalance

/-- Alice's loan of four thousand was repaid with the interest that her top-up did not pay, and
Bob still owes his thousand and its interest. -/
theorem lifetime_ledger :
    Sample.engine.openings Sample.lifetime = 2 ∧
      Journal.total Transfer.borrowedUnits (Sample.engine.journal Sample.lifetime) = 5000 ∧
      Journal.total Transfer.borrowedUnits (Sample.engine.journal Sample.lifetime) +
          Sample.engine.charges Sample.lifetime =
        Journal.total Transfer.repaidUnits (Sample.engine.journal Sample.lifetime) +
        Journal.total Transfer.interestUnits (Sample.engine.journal Sample.lifetime) +
        Journal.total Transfer.writtenOffUnits (Sample.engine.journal Sample.lifetime) +
        (Sample.engine.run Sample.lifetime).outstanding := by
  have hrun : Sample.engine.openings Sample.lifetime = 2 ∧
      Journal.total Transfer.borrowedUnits (Sample.engine.journal Sample.lifetime) = 5000 := by
    decide +kernel
  refine ⟨hrun.1, hrun.2, run_ledger Sample.engine_new _ ?_⟩
  rw [hrun.1]
  decide

end Engine

end LeveragedLp
