import Mathlib.Logic.Function.Basic
import Mathlib.Logic.Relation

/-!
# The client's token

`auth.rs` of the client crate: a cached bearer token, and one refresh in flight
that concurrent callers wait for.  Any number of callers of `ensure_token` are
interleaved step by step.  A caller's future may be dropped where it awaits: at
the cache's lock, on its notification, and inside the refresh.

A notification wakes the futures that exist when `notify_waiters` runs.  The
handshake with the server answers anything; a failed call returns the text of
`ClientError::Auth`.
-/

namespace AquaTimestamp

/-- `REFRESH_LEAD_SECS`. -/
def refreshLeadSecs : Nat := 60

/-- `Cached`. -/
structure Cached where
  token : String
  validUntil : Nat
  deriving DecidableEq, Repr

/-- `needs_refresh`, at a time. -/
def needsRefresh (now validUntil : Nat) : Bool :=
  decide (validUntil ≤ now + refreshLeadSecs)

/-- Where a caller of `ensure_token` is. -/
inductive Caller where
  /-- It has not called yet. -/
  | absent
  /-- At the top of the loop, before the cache's lock. -/
  | entering
  /-- The cache needs a refresh; before `compare_exchange`. -/
  | claiming
  /-- `compare_exchange` failed; before `notified()`. -/
  | outrun
  /-- Its `notified()` future has not been woken. -/
  | waiting
  /-- Its `notified()` future has been woken. -/
  | woken
  /-- It owns the refresh; in the handshake. -/
  | refreshing
  /-- It owns the refresh; the handshake gave a session, before the cache's lock. -/
  | publishing (session : Cached)
  /-- `run_refresh` has returned; before `in_flight` is released. -/
  | finished (result : Except String String)
  /-- Before `notify_waiters`. -/
  | released (result : Except String String)
  | returned (result : Except String String)
  | dropped

namespace Caller

/-- Between a successful `compare_exchange` and the release. -/
def owns : Caller → Bool
  | .refreshing => true
  | .publishing _ => true
  | .finished _ => true
  | _ => false

/-- Between the release and `notify_waiters`. -/
def hasReleased : Caller → Bool
  | .released _ => true
  | _ => false

def isWaiting : Caller → Bool
  | .waiting => true
  | _ => false

/-- Its future is at an await point. -/
def awaits : Caller → Bool
  | .entering => true
  | .waiting => true
  | .woken => true
  | .refreshing => true
  | .publishing _ => true
  | _ => false

/-- What `notify_waiters` does to the caller. -/
def notified : Caller → Caller
  | .waiting => .woken
  | c => c

end Caller

/-- `AuthState` with its callers. -/
structure AuthState where
  cached : Option Cached
  inFlight : Bool
  callers : Nat → Caller

/-- One atomic step of one caller. -/
inductive AuthAction where
  | arrive (i : Nat)
  | checkCache (i now : Nat)
  | compareExchange (i : Nat)
  | createNotified (i : Nat)
  | authenticate (i : Nat) (answer : Except String Cached)
  | publish (i : Nat)
  | release (i : Nat)
  | notifyWaiters (i : Nat)
  | wake (i : Nat)
  | drop (i : Nat)

namespace AuthState

/-- Nobody has called yet. -/
def new (cached : Option Cached) : AuthState :=
  ⟨cached, false, fun _ => .absent⟩

/-- A caller moves on. -/
def move (s : AuthState) (i : Nat) (c : Caller) : AuthState :=
  { s with callers := Function.update s.callers i c }

/-- The state after a step, when the caller is where the step starts. -/
def next (s : AuthState) : AuthAction → Option AuthState
  | .arrive i =>
      match s.callers i with
      | .absent => some (s.move i .entering)
      | _ => none
  | .checkCache i now =>
      match s.callers i with
      | .entering =>
          match s.cached with
          | some c =>
              if needsRefresh now c.validUntil then some (s.move i .claiming)
              else some (s.move i (.returned (.ok c.token)))
          | none => some (s.move i .claiming)
      | _ => none
  | .compareExchange i =>
      match s.callers i with
      | .claiming =>
          if s.inFlight then some (s.move i .outrun)
          else some { s.move i .refreshing with inFlight := true }
      | _ => none
  | .createNotified i =>
      match s.callers i with
      | .outrun => some (s.move i .waiting)
      | _ => none
  | .authenticate i answer =>
      match s.callers i with
      | .refreshing =>
          match answer with
          | .ok session => some (s.move i (.publishing session))
          | .error e => some (s.move i (.finished (.error e)))
      | _ => none
  | .publish i =>
      match s.callers i with
      | .publishing session =>
          some { s.move i (.finished (.ok session.token)) with cached := some session }
      | _ => none
  | .release i =>
      match s.callers i with
      | .finished result => some { s.move i (.released result) with inFlight := false }
      | _ => none
  | .notifyWaiters i =>
      match s.callers i with
      | .released result =>
          some { s with
            callers := Function.update (fun j => (s.callers j).notified) i
              (.returned result) }
      | _ => none
  | .wake i =>
      match s.callers i with
      | .woken => some (s.move i .entering)
      | _ => none
  | .drop i => if (s.callers i).awaits then some (s.move i .dropped) else none

/-- A condition on the steps of a run, in the state they are made in. -/
abbrev Condition := AuthState → AuthAction → Prop

/-- One step that meets a condition. -/
def Step (meets : Condition) (s s' : AuthState) : Prop :=
  ∃ a, meets s a ∧ s.next a = some s'

/-- The runs whose steps all meet a condition. -/
abbrev Steps (meets : Condition) : AuthState → AuthState → Prop :=
  Relation.ReflTransGen (Step meets)

/-- Execute a list of steps. -/
def play (s : AuthState) : List AuthAction → Option AuthState
  | [] => some s
  | a :: as => (s.next a).bind fun s' => s'.play as

theorem steps_play {meets : Condition} (as : List AuthAction)
    (hmeets : ∀ a ∈ as, ∀ s, meets s a) {s s' : AuthState} (h : s.play as = some s') :
    Steps meets s s' := by
  induction as generalizing s with
  | nil =>
      cases h
      exact .refl
  | cons a as ih =>
      obtain ⟨s₁, hstep, hrest⟩ := Option.bind_eq_some_iff.mp h
      have hsteps := ih (fun a' ha' => hmeets a' (List.mem_cons_of_mem _ ha')) hrest
      exact hsteps.head ⟨a, hmeets a (List.mem_cons_self ..) s, hstep⟩

end AuthState

end AquaTimestamp
