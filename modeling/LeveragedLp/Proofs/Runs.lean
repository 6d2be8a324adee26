import LeveragedLp.Chain.Calls
import LeveragedLp.Chain.Initial
import LeveragedLp.Engine.Operation
import LeveragedLp.Proofs.Sums

/-!
# Runs of the engine

A run is a list of requests to one engine. Each request brings the host that serves it, in a state
of its own choosing, so between two requests the chain may have moved on in any way, and what
holds of every run holds whatever the hosts do. `Engine.run` is the engine after a run and
`Engine.answers` the answers along it. Totals of a run are read off its answers
(`Engine.total`): how many positions were opened, and how much interest was charged.

The last section has a run on the chain in memory, at which the statements about runs are tried.
-/

set_option autoImplicit false

namespace LeveragedLp

/-- Something asked of the engine, with the host that serves it and the state the host is in. -/
structure Request where
  {σ κ : Type}
  host : Host σ κ
  state : σ
  op : Operation

/-! ## What answers count for -/

/-- What a result counts for; a fault counts for nothing. -/
def countOk {α : Type} (f : α → Nat) : Except Fault α → Nat
  | .ok a => f a
  | .error _ => 0

/-- What a result tells; a fault tells nothing. -/
def toldBy {α β : Type} (f : α → List β) : Except Fault α → List β
  | .ok a => f a
  | .error _ => []

/-- What the results of all visits count for. -/
def Visits.total {α : Type} (v : Visits α) (f : α → Nat) : Nat :=
  (v.map fun visit => countOk f visit.2).sum

/-- The interest that a settlement charged. -/
def Settlement.charged (t : Settlement) : Nat := t.accrual.due.units

/-- The interest that an epoch's accrual charged. -/
def AccrualReport.charged (r : AccrualReport) : Nat := r.visits.total fun a => a.due.units

/-- The interest charged at a block: in the accrual, if there was one, and in the settlements. -/
def BlockReport.charged (r : BlockReport) : Nat :=
  (r.accrual.map AccrualReport.charged).getD 0 +
    r.visits.total fun settled => (settled.map Settlement.charged).getD 0

namespace Answer

/-- One for the answer to a successful opening. -/
def openings : Answer → Nat
  | .opened _ => 1
  | _ => 0

/-- The interest that an operation charged. -/
def charges : Answer → Nat
  | .closed settlement => settlement.charged
  | .forceClose (.closed settlement) => settlement.charged
  | .accrual report => report.charged
  | .block report => report.charged
  | _ => 0

/-- The events that were drained. -/
def drained : Answer → List Event
  | .events drained => drained
  | _ => []

/-- Whether an answer is of the kind that an operation gives. -/
def fits : Answer → Operation → Bool
  | .opened _, .openPosition _ _ => true
  | .topUp _, .addCollateral _ _ => true
  | .closed _, .close _ _ => true
  | .forceClose _, .forceClose _ _ => true
  | .accrual _, .accrueEpoch _ => true
  | .block _, .beginBlock _ => true
  | .done, .updateParams _ => true
  | .done, .createPool _ _ _ => true
  | .done, .setPoolEnabled _ _ => true
  | .done, .closePool _ => true
  | .done, .updateLeverageMax _ _ => true
  | .created _, .registerAmmPools _ => true
  | .events _, .drainEvents => true
  | _, _ => false

end Answer

namespace Engine

variable {σ κ α : Type} {h : Host σ κ} {e : Engine} {op : Operation} {s : σ} {answer : Answer}

theorem fits_of_map {x : Except Fault α} {form : α → Answer}
    (hform : ∀ a, (form a).fits op = true) (hanswer : x.map form = .ok answer) :
    answer.fits op = true := by
  cases x with
  | error _ => cases hanswer
  | ok a =>
      cases hanswer
      exact hform a

theorem fits_of_answer {x : Except Fault Engine} (hdone : Answer.done.fits op = true)
    (hanswer : (e.answer x s).1 = .ok answer) : answer.fits op = true := by
  cases x with
  | error _ => cases hanswer
  | ok e' =>
      cases hanswer
      exact hdone

/-- What does not fail is answered in kind. -/
theorem perform_fits (hanswer : (e.perform h op s).1 = .ok answer) : answer.fits op = true := by
  cases op with
  | openPosition r block => exact fits_of_map (fun _ => rfl) hanswer
  | addCollateral k coin => exact fits_of_map (fun _ => rfl) hanswer
  | close k block => exact fits_of_map (fun _ => rfl) hanswer
  | forceClose k block => exact fits_of_map (fun _ => rfl) hanswer
  | accrueEpoch block =>
      cases hanswer
      rfl
  | beginBlock block =>
      cases hanswer
      rfl
  | updateParams params => exact fits_of_answer rfl hanswer
  | createPool pool leverageMax enabled => exact fits_of_answer rfl hanswer
  | setPoolEnabled pool enabled => exact fits_of_answer rfl hanswer
  | closePool pool => exact fits_of_answer rfl hanswer
  | updateLeverageMax pool leverageMax => exact fits_of_answer rfl hanswer
  | registerAmmPools leverageMax => exact fits_of_map (fun _ => rfl) hanswer
  | drainEvents =>
      cases hanswer
      rfl

/-- Where all answers in kind tell nothing, an operation tells nothing. -/
theorem toldBy_perform {β : Type} {f : Answer → List β}
    (hnothing : ∀ answer, answer.fits op = true → f answer = []) (h : Host σ κ) (e : Engine)
    (s : σ) : toldBy f (e.perform h op s).1 = [] := by
  cases hanswer : (e.perform h op s).1 with
  | error fault => rfl
  | ok answer => exact hnothing answer (perform_fits hanswer)

end Engine

/-! ## Runs -/

namespace Engine

/-- The answer to a request. -/
def respond (e : Engine) (q : Request) : Except Fault Answer := (e.perform q.host q.op q.state).1

/-- The engine after a request. -/
def next (e : Engine) (q : Request) : Engine := (e.perform q.host q.op q.state).2.1

/-- The engine after requests in turn. -/
def run : Engine → List Request → Engine
  | e, [] => e
  | e, q :: qs => (e.next q).run qs

/-- The answers to requests in turn. -/
def answers : Engine → List Request → List (Except Fault Answer)
  | _, [] => []
  | e, q :: qs => e.respond q :: (e.next q).answers qs

/-- What the answers along a run count for. -/
def total (f : Answer → Nat) (e : Engine) (qs : List Request) : Nat :=
  ((e.answers qs).map (countOk f)).sum

/-- How many positions a run opens. -/
def openings (e : Engine) (qs : List Request) : Nat := total Answer.openings e qs

/-- How much interest a run charges. -/
def charges (e : Engine) (qs : List Request) : Nat := total Answer.charges e qs

theorem total_cons (f : Answer → Nat) (e : Engine) (q : Request) (qs : List Request) :
    total f e (q :: qs) = countOk f (e.respond q) + total f (e.next q) qs := by
  rw [total, answers, List.map_cons, List.sum_cons, total]

/-- A bound on the openings of a run bounds those of its first request, and those of the rest
added to them. -/
theorem openings_cons_lt {e : Engine} {q : Request} {qs : List Request} {n bound : Nat}
    (hn : n + e.openings (q :: qs) < bound) :
    n + countOk Answer.openings (e.respond q) < bound ∧
      n + countOk Answer.openings (e.respond q) + (e.next q).openings qs < bound := by
  rw [openings, total_cons, ← Nat.add_assoc] at hn
  exact ⟨Nat.lt_of_le_of_lt (Nat.le_add_right _ _) hn, hn⟩

theorem countOk_openings_le (answer : Except Fault Answer) :
    countOk Answer.openings answer ≤ 1 := by
  cases answer with
  | error fault => exact Nat.zero_le 1
  | ok answer => cases answer <;> simp [countOk, Answer.openings]

/-- A request opens one position at most. -/
theorem openings_le_length (e : Engine) (qs : List Request) : e.openings qs ≤ qs.length := by
  induction qs generalizing e with
  | nil => exact Nat.le_refl 0
  | cons q qs ih =>
      have hfirst := countOk_openings_le (e.respond q)
      have hrest := ih (e.next q)
      rw [openings, total_cons, List.length_cons]
      unfold openings at hrest
      omega

theorem run_append (e : Engine) (pre post : List Request) :
    e.run (pre ++ post) = (e.run pre).run post := by
  induction pre generalizing e with
  | nil => rfl
  | cons q pre ih => exact ih (e.next q)

theorem openings_append (e : Engine) (pre post : List Request) :
    e.openings (pre ++ post) = e.openings pre + (e.run pre).openings post := by
  induction pre generalizing e with
  | nil => exact (Nat.zero_add _).symm
  | cons q pre ih =>
      have hrest := ih (e.next q)
      unfold openings at hrest ⊢
      rw [List.cons_append, total_cons, total_cons, hrest, Nat.add_assoc]
      rfl

end Engine

/-! ## A run on the chain in memory -/

/-- A computation of which the answer is known, with the engine and the host that it left. -/
theorem EngineM.eq_of_fst {σ α : Type} {x : Except Fault α × Engine × σ} {a : α}
    (hx : x.1 = .ok a) : x = (.ok a, x.2.1, x.2.2) := Prod.ext hx rfl

namespace Sample

theorem alice_notBlank : Text.isBlank "elys1alice" = false := by decide

theorem bob_notBlank : Text.isBlank "elys1bob" = false := by decide

def alice : Address := ⟨"elys1alice", alice_notBlank⟩

def bob : Address := ⟨"elys1bob", bob_notBlank⟩

/-- The engine with the standard parameters, before anything happened. -/
def engine : Engine := { params := .standard, book := .empty, events := [] }

theorem engine_new : Engine.create .standard = .ok engine := rfl

/-- Alice posts an asset that is not lent, and levers it five times. -/
def opening : OpenRequest where
  owner := alice
  collateral := ⟨Chain.usdt, { units := 1000 }⟩
  borrowAsset := .usdc
  pool := 1
  direction := .long
  leverage := .tenths 50
  takeProfit := none

/-- The world after Alice opened her position in a new pool. -/
def opened : Engine × Chain :=
  let tracked := engine.perform Chain.host (.createPool 1 (.tenths 50) true) Chain.initial
  (tracked.2.1.perform Chain.host (.openPosition opening ⟨1, 0⟩) tracked.2.2).2

/-- Requests to one chain, each of which finds it as the one before left it. -/
def inTurn : Engine → Chain → List Operation → List Request
  | _, _, [] => []
  | e, c, op :: ops =>
    let after := (e.perform Chain.host op c).2
    ⟨Chain.host, c, op⟩ :: inTurn after.1 after.2 ops

/-- Alice and Bob open positions in one pool. Alice tops hers up, so that it pays a part of its
interest, while Bob's pays none; and Alice closes hers. -/
def lifetime : List Request :=
  inTurn engine Chain.initial
    [.createPool 1 (.tenths 50) true,
     .openPosition opening ⟨1, 0⟩,
     .openPosition { opening with owner := bob, leverage := .tenths 20 } ⟨1, 0⟩,
     .addCollateral ⟨alice, 1⟩ ⟨.usdc, { units := 60 }⟩,
     .accrueEpoch ⟨2, 788400⟩,
     .close ⟨alice, 1⟩ ⟨3, 1576800⟩]

end Sample

end LeveragedLp
