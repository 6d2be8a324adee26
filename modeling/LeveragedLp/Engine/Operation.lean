import LeveragedLp.Engine.Admin
import LeveragedLp.Engine.Opening
import LeveragedLp.Engine.Sweep

/-!
# Operations

`Operation` lists what can be asked of the engine that may change it, and `Engine.perform` does
it: from an engine and a state of the host to an answer or a fault, the engine after it, and the
host after it. A run is a list of operations, each with a host of its own choosing.
-/

set_option autoImplicit false

namespace LeveragedLp

/-- A request to the engine that may change it. -/
inductive Operation where
  | openPosition (request : OpenRequest) (block : Block)
  | addCollateral (key : PositionKey) (coin : Coin)
  | close (key : PositionKey) (block : Block)
  | forceClose (key : PositionKey) (block : Block)
  | accrueEpoch (block : Block)
  | beginBlock (block : Block)
  | updateParams (params : Params)
  | createPool (pool : UInt64) (leverageMax : Decimal) (enabled : Bool)
  | setPoolEnabled (pool : UInt64) (enabled : Bool)
  | closePool (pool : UInt64)
  | updateLeverageMax (pool : UInt64) (leverageMax : Decimal)
  | registerAmmPools (leverageMax : Decimal)
  | drainEvents
deriving DecidableEq

/-- What an operation that did not fail answers. -/
inductive Answer where
  | done
  | opened (response : Response)
  | topUp (health : Decimal)
  | closed (settlement : Settlement)
  | forceClose (outcome : Engine.ForceCloseOutcome)
  | accrual (report : AccrualReport)
  | block (report : BlockReport)
  | created (pools : List UInt64)
  | events (drained : List Event)

namespace Engine

variable {σ κ α : Type}

/-- The answer of a fallible change of the engine alone. -/
def answer (e : Engine) (x : Except Fault Engine) (s : σ) : Except Fault Answer × Engine × σ :=
  match x with
  | .ok e' => (.ok .done, e', s)
  | .error fault => (.error fault, e, s)

/-- The answer of a computation on engine and host. -/
def answerM (e : Engine) (x : EngineM σ α) (form : α → Answer) (s : σ) :
    Except Fault Answer × Engine × σ :=
  let (result, e', t) := x (e, s)
  (result.map form, e', t)

/-- Does what an operation asks for. -/
def perform (h : Host σ κ) (e : Engine) (op : Operation) (s : σ) :
    Except Fault Answer × Engine × σ :=
  match op with
  | .openPosition request block => e.answerM (openPosition h request block) .opened s
  | .addCollateral key coin => e.answerM (addCollateral h key coin) .topUp s
  | .close key block => e.answerM (close h key block) .closed s
  | .forceClose key block => e.answerM (forceClose h key block) .forceClose s
  | .accrueEpoch block =>
    let (report, e', t) := accrueEpoch h e block s
    (.ok (.accrual report), e', t)
  | .beginBlock block =>
    let (report, e', t) := beginBlock h e block s
    (.ok (.block report), e', t)
  | .updateParams params => e.answer (e.updateParams params) s
  | .createPool pool leverageMax enabled => e.answer (e.createPool pool leverageMax enabled) s
  | .setPoolEnabled pool enabled => e.answer (e.setPoolEnabled pool enabled) s
  | .closePool pool => e.answer (e.closePool pool) s
  | .updateLeverageMax pool leverageMax => e.answer (e.updateLeverageMax pool leverageMax) s
  | .registerAmmPools leverageMax =>
    let (created, e') := e.registerAmmPools h leverageMax s
    (created.map .created, e', s)
  | .drainEvents => (.ok (.events e.drain.1), e.drain.2, s)

end Engine

end LeveragedLp
