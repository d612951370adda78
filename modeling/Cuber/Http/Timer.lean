import Cuber.Net.TcpConnection

/-!
# The keep-alive timer

`HttpTimer` holds its connections in the order in which they were established
and looks through them from the front once per tick, up to the first that is
young.  A connection does not move when it receives something, so an expired
connection can stand behind a young one, and then it is not looked at.

Times are in microseconds.  `timeDifference` divides by a million in floating
point and compares with an integral number of seconds, which at the magnitudes
of an `int` agrees with comparing the microseconds.
-/

namespace Cuber.Timer

open Cuber.Connection
open Cuber.Text

def kMicroSecondsPerSecond : ℤ := 1000000

/-- `HttpTimer::defaultTimeoutCallback`, less the timer of the delayed close. -/
def defaultTimeoutCallback (conn : TcpConnection) : TcpConnection :=
  conn.shutdown.beginForceClose

def age (now : ℤ) (conn : TcpConnection) : ℤ := now - conn.lastReceiveTime

section Tick

variable (expireSeconds now : ℤ)

/-- `HttpTimer::onTimer`: what is left of the list, and the connections that the
timeout callback is invoked for, in this order.  An entry is what `lock()`
returns for it. -/
def onTimer : List (Option TcpConnection) →
    List (Option TcpConnection) × List TcpConnection
  | [] => ([], [])
  | none :: entries => onTimer entries
  | some conn :: entries =>
      if expireSeconds * kMicroSecondsPerSecond < age now conn then
        if conn.connected then
          (some (defaultTimeoutCallback conn) :: (onTimer entries).1,
            conn :: (onTimer entries).2)
        else (some conn :: (onTimer entries).1, (onTimer entries).2)
      else if age now conn < 0 then
        (some (conn.updateLastReceiveTime now) :: (onTimer entries).1, (onTimer entries).2)
      else (some conn :: entries, [])

def isDue (conn : TcpConnection) : Bool :=
  conn.connected && decide (expireSeconds * kMicroSecondsPerSecond < age now conn)

/-- A connection at which the scan stops. -/
def IsYoung (conn : TcpConnection) : Prop :=
  0 ≤ age now conn ∧ age now conn ≤ expireSeconds * kMicroSecondsPerSecond

instance (conn : TcpConnection) : Decidable (IsYoung expireSeconds now conn) :=
  inferInstanceAs (Decidable (_ ∧ _))

def live (entries : List (Option TcpConnection)) : List TcpConnection :=
  entries.filterMap id

/-- The callback is invoked for exactly the live connections that are due, once
each. -/
def ExpiresExactly (entries : List (Option TcpConnection)) : Prop :=
  (onTimer expireSeconds now entries).2 = (live entries).filter (isDue expireSeconds now)

/-- No connection that is due stands behind a young one. -/
def NoneHidden (entries : List (Option TcpConnection)) : Prop :=
  (live entries).Pairwise fun ahead behind =>
    IsYoung expireSeconds now ahead → isDue expireSeconds now behind = false

variable {expireSeconds now}

theorem isDue_eq_false_of_isYoung {conn : TcpConnection}
    (hyoung : IsYoung expireSeconds now conn) : isDue expireSeconds now conn = false := by
  rw [isDue, decide_eq_false (not_lt.mpr hyoung.2), Bool.and_false]

/-- A connection that does not stop the scan is passed, and the callback is invoked
for it if it is due. -/
theorem onTimer_cons_of_not_isYoung {conn : TcpConnection}
    (hyoung : ¬ IsYoung expireSeconds now conn) (entries : List (Option TcpConnection)) :
    (onTimer expireSeconds now (some conn :: entries)).2 =
      (if isDue expireSeconds now conn then [conn] else []) ++
        (onTimer expireSeconds now entries).2 := by
  by_cases hage : expireSeconds * kMicroSecondsPerSecond < age now conn
  · rw [onTimer, if_pos hage, isDue, decide_eq_true hage, Bool.and_true]
    split_ifs <;> rfl
  · have hjump : age now conn < 0 := by
      by_contra hpast
      exact hyoung ⟨not_lt.mp hpast, not_lt.mp hage⟩
    rw [onTimer, if_neg hage, if_pos hjump, isDue, decide_eq_false hage, Bool.and_false]
    rfl

theorem onTimer_cons_of_isYoung {conn : TcpConnection}
    (hyoung : IsYoung expireSeconds now conn) (entries : List (Option TcpConnection)) :
    (onTimer expireSeconds now (some conn :: entries)).2 = [] := by
  rw [onTimer, if_neg (not_lt.mpr hyoung.2), if_neg (not_lt.mpr hyoung.1)]

end Tick

/-- The timer expires the connections that are due, and no other, exactly when none
of them stands behind a young connection. -/
theorem expiresExactly_iff (expireSeconds now : ℤ) (entries : List (Option TcpConnection)) :
    ExpiresExactly expireSeconds now entries ↔ NoneHidden expireSeconds now entries := by
  rw [ExpiresExactly, NoneHidden]
  induction entries with
  | nil => simp [onTimer, live]
  | cons entry entries ih =>
      cases entry with
      | none => exact ih
      | some conn =>
          rw [show live (some conn :: entries) = conn :: live entries from rfl,
            List.pairwise_cons]
          by_cases hyoung : IsYoung expireSeconds now conn
          · rw [onTimer_cons_of_isYoung hyoung, List.filter_cons_of_neg
              (by simp [isDue_eq_false_of_isYoung hyoung]), eq_comm, List.filter_eq_nil_iff]
            constructor
            · intro hnone
              have hall : ∀ behind ∈ live entries,
                  isDue expireSeconds now behind = false := fun behind hbehind =>
                Bool.eq_false_iff.mpr (hnone behind hbehind)
              refine ⟨fun behind hbehind _ => hall behind hbehind, ?_⟩
              exact List.Pairwise.imp_of_mem (fun _ hbehind _ _ => hall _ hbehind)
                (List.pairwise_of_forall fun _ _ => trivial)
            · rintro ⟨hnone, _⟩ behind hbehind
              exact Bool.eq_false_iff.mp (hnone behind hbehind hyoung)
          · have hfilter : (conn :: live entries).filter (isDue expireSeconds now) =
                (if isDue expireSeconds now conn then [conn] else []) ++
                  (live entries).filter (isDue expireSeconds now) := by
              rw [List.filter_cons]
              split_ifs <;> rfl
            rw [onTimer_cons_of_not_isYoung hyoung, hfilter, List.append_cancel_left_eq, ih]
            exact ⟨fun hrest => ⟨fun _ _ h => absurd h hyoung, hrest⟩, fun hrest => hrest.2⟩

/-! ## The list over time -/

inductive TimerEvent where
  /-- `HttpServer::onConnection` for a connection that was established. -/
  | connected (name : Bytes) (time : ℤ)
  /-- `TcpConnection::handleRead` of the connection at a position. -/
  | received (position : ℕ) (time : ℤ)
  /-- The last owner of the connection at a position is gone. -/
  | destroyed (position : ℕ)
  /-- A tick. -/
  | ticked (time : ℤ)
  deriving DecidableEq

/-- The list after an event, for a timer that expires after some seconds. -/
def timerStep (expireSeconds : ℤ) (entries : List (Option TcpConnection)) :
    TimerEvent → List (Option TcpConnection)
  | .connected name time => entries ++ [some
      { TcpConnection.established with name := name, lastReceiveTime := time }]
  | .received position time =>
      entries.modify position (Option.map fun conn => conn.updateLastReceiveTime time)
  | .destroyed position => entries.set position none
  | .ticked time => (onTimer expireSeconds time entries).1

/-- A connection expires while another, established after it, is young. -/
def orderedTraffic : List TimerEvent :=
  [.connected (ascii "a") 0, .connected (ascii "b") 60000000]

example : ExpiresExactly 65 67000000 (orderedTraffic.foldl (timerStep 65) []) := by
  rw [ExpiresExactly]
  decide

/-- A connection expires while the other, established before it, is young, as it
received something in between. -/
def reorderedTraffic : List TimerEvent :=
  [.connected (ascii "a") 0, .connected (ascii "b") 1000000, .received 0 60000000]

/-- An expired connection behind one that received something is not looked at. -/
theorem reorderedTraffic_hides_connection :
    ¬ ExpiresExactly 65 67000000 (reorderedTraffic.foldl (timerStep 65) []) := by
  rw [ExpiresExactly]
  decide

end Cuber.Timer
