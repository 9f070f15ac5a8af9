import Mathlib.Logic.Function.Basic
import Mec.Lib.Lts

/-!
# The monitor's listening socket (`monitor.c`)

The service thread opens the listening socket and leaves its number in
`mon->server_fd`; `monitor_stop_service` joins the thread and closes the number it
finds there. Descriptor numbers belong to the listening socket, to a client, or to
another component, which may open any free number and close its own at any time.
`closes` is the history of the calls of `close` on `server_fd`, with the owner of
the number at the time.
-/

namespace Mec

open Lib.Lts

/-- Whose an open descriptor is. -/
inductive Owner where
  | listening
  | client
  | other
  deriving DecidableEq

/-- Why `monitor_server_thread` returned: no socket, `bind` or `listen` failed, or it
was told to stop. -/
inductive Exit where
  | noSocket
  | refused
  | stopped
  deriving DecidableEq

/-- Where `monitor_server_thread` is, with its local descriptors. -/
inductive ServerPhase where
  | start
  | socketed (fd : Nat)
  | bound (fd : Nat)
  | refused (fd : Nat)
  | looping (fd : Nat)
  | polling (fd : Nat)
  | serving (fd client : Nat)
  | returned (exit : Exit)
  deriving DecidableEq

namespace ServerPhase

/-- `bind` or `listen` has failed. -/
def hasRefused : ServerPhase → Bool
  | refused _ | returned .refused => true
  | _ => false

end ServerPhase

/-- Where `monitor_stop_service` is. -/
inductive StopPhase where
  | idle
  | stopping
  | joined
  | closed
  | finished
  deriving DecidableEq

namespace StopPhase

def beforeJoin : StopPhase → Bool
  | idle | stopping => true
  | _ => false

def hasClosed : StopPhase → Bool
  | closed | finished => true
  | _ => false

theorem hasClosed_of_beforeJoin : ∀ {p : StopPhase}, p.beforeJoin → p.hasClosed = false
  | idle, _ | stopping, _ => rfl

end StopPhase

inductive Closer where
  | serverThread
  | stopService
  deriving DecidableEq

/-- A call of `close` on `server_fd`. -/
structure CloseCall where
  caller : Closer
  fd : Nat
  owner : Option Owner
  deriving DecidableEq

/-- The descriptors of the process, `mon->server_fd` (`none` for -1), the running flag
and both threads; `opened` and `closes` are history. -/
structure MonitorSys where
  fds : Nat → Option Owner
  serverFd : Option Nat
  running : Bool
  server : ServerPhase
  stop : StopPhase
  opened : Option Nat
  closes : List CloseCall

inductive MonitorAct where
  | socket (fd : Option Nat)
  | bind (ok : Bool)
  | listen (ok : Bool)
  | closeRefused
  | test
  | poll (client : Option Nat)
  | closeClient
  | stop
  | join
  | closeServer
  | finish
  | otherOpen (fd : Nat)
  | otherClose (fd : Nat)
  deriving DecidableEq

namespace MonitorSys

/-- After `monitor_start_service` has created the thread; other components have some
descriptors. -/
def start (others : Nat → Bool) : MonitorSys where
  fds fd := if others fd then some .other else none
  serverFd := none
  running := true
  server := .start
  stop := .idle
  opened := none
  closes := []

/-- `close(fd)`, whoever has the number. -/
def close (s : MonitorSys) (caller : Closer) (fd : Nat) : MonitorSys :=
  { s with fds := Function.update s.fds fd none, closes := s.closes ++ [⟨caller, fd, s.fds fd⟩] }

end MonitorSys

/-- A step of one of the threads, or of another component. -/
def monitorStep (s : MonitorSys) : MonitorAct → Option (MonitorSys × Unit)
  | .socket none =>
    if s.server = .start then some ({ s with server := .returned .noSocket }, ()) else none
  | .socket (some fd) =>
    if s.server = .start ∧ s.fds fd = none then
      some ({ s with
        fds := Function.update s.fds fd (some .listening)
        serverFd := some fd
        server := .socketed fd
        opened := some fd }, ())
    else none
  | .bind ok =>
    match s.server with
    | .socketed fd => some ({ s with server := if ok then .bound fd else .refused fd }, ())
    | _ => none
  | .listen ok =>
    match s.server with
    | .bound fd => some ({ s with server := if ok then .looping fd else .refused fd }, ())
    | _ => none
  | .closeRefused =>
    match s.server with
    | .refused fd => some ({ s.close .serverThread fd with server := .returned .refused }, ())
    | _ => none
  | .test =>
    match s.server with
    | .looping fd =>
      some ({ s with server := if s.running then .polling fd else .returned .stopped }, ())
    | _ => none
  | .poll none =>
    match s.server with
    | .polling fd => some ({ s with server := .looping fd }, ())
    | _ => none
  | .poll (some client) =>
    match s.server with
    | .polling fd =>
      if s.fds client = none then
        some ({ s with
          fds := Function.update s.fds client (some .client)
          server := .serving fd client }, ())
      else none
    | _ => none
  | .closeClient =>
    match s.server with
    | .serving fd client =>
      some ({ s with fds := Function.update s.fds client none, server := .looping fd }, ())
    | _ => none
  | .stop =>
    if s.stop = .idle then some ({ s with running := false, stop := .stopping }, ()) else none
  | .join =>
    match s.server with
    | .returned _ =>
      if s.stop = .stopping then some ({ s with stop := .joined }, ()) else none
    | _ => none
  | .closeServer =>
    if s.stop = .joined then
      match s.serverFd with
      | some fd => some ({ s.close .stopService fd with serverFd := none, stop := .closed }, ())
      | none => some ({ s with stop := .closed }, ())
    else none
  | .finish => if s.stop = .closed then some ({ s with stop := .finished }, ()) else none
  | .otherOpen fd =>
    if s.fds fd = none then
      some ({ s with fds := Function.update s.fds fd (some .other) }, ())
    else none
  | .otherClose fd =>
    if s.fds fd = some .other then
      some ({ s with fds := Function.update s.fds fd none }, ())
    else none

namespace MonitorSys

/-- The listening descriptor, if there was one, is closed exactly once, and the stop
function closes nobody else's. -/
def ClosesOwnOnce (s : MonitorSys) : Prop :=
  s.closes.map CloseCall.fd = s.opened.toList ∧
    ∀ c ∈ s.closes, c.caller = .stopService → c.owner ≠ some .other

/-- The listening socket is open at `fd`, and no one has tried to close it. -/
def Holds (s : MonitorSys) (fd : Nat) : Prop :=
  s.serverFd = some fd ∧ s.opened = some fd ∧ s.fds fd = some .listening ∧ s.closes = []

/-- What the phases say of the descriptors. Until the join only the service thread
closes; after it `mon->server_fd` still has the number the thread put there. -/
def Inv (s : MonitorSys) : Prop :=
  match s.server with
  | .start => s.stop.beforeJoin ∧ s.serverFd = none ∧ s.opened = none ∧ s.closes = []
  | .socketed fd | .bound fd | .refused fd | .looping fd | .polling fd =>
    s.stop.beforeJoin ∧ s.Holds fd
  | .serving fd client => s.stop.beforeJoin ∧ s.Holds fd ∧ s.fds client = some .client
  | .returned .noSocket => s.serverFd = none ∧ s.opened = none ∧ s.closes = []
  | .returned .refused => ∃ fd, s.opened = some fd ∧
      if s.stop.hasClosed then
        ∃ owner, s.closes =
          [⟨.serverThread, fd, some .listening⟩, ⟨.stopService, fd, owner⟩]
      else s.serverFd = some fd ∧ s.closes = [⟨.serverThread, fd, some .listening⟩]
  | .returned .stopped => ∃ fd,
      if s.stop.hasClosed then
        s.opened = some fd ∧ s.closes = [⟨.stopService, fd, some .listening⟩]
      else s.Holds fd

end MonitorSys

section Steps

variable {s t : MonitorSys} {u : Unit}

theorem owner_update {fds : Nat → Option Owner} {n m : Nat} {o : Owner} (hn : fds n = some o)
    (hm : fds m ≠ some o) (v : Option Owner) : Function.update fds m v n = some o := by
  rw [Function.update_of_ne, hn]
  rintro rfl
  exact hm hn

theorem MonitorSys.Inv.others (h : s.Inv) {fds : Nat → Option Owner}
    (hfds : ∀ n o, o ≠ .other → s.fds n = some o → fds n = some o) :
    { s with fds }.Inv := by
  have hholds : ∀ fd, s.Holds fd → { s with fds }.Holds fd := by
    rintro fd ⟨hserver, hopened, howner, hcloses⟩
    exact ⟨hserver, hopened, hfds fd _ (by decide) howner, hcloses⟩
  obtain ⟨fds₀, serverFd, running, server, stop, opened, closes⟩ := s
  cases server with
  | start => exact h
  | socketed fd | bound fd | refused fd | looping fd | polling fd =>
    exact ⟨h.1, hholds fd h.2⟩
  | serving fd client => exact ⟨h.1, hholds fd h.2.1, hfds client _ (by decide) h.2.2⟩
  | returned exit =>
    cases exit with
    | noSocket | refused => exact h
    | stopped =>
      obtain ⟨fd, hfd⟩ := h
      refine ⟨fd, ?_⟩
      simp only at hfd ⊢
      split
      · next hclosed => rwa [if_pos hclosed] at hfd
      · next hclosed =>
        rw [if_neg hclosed] at hfd
        exact hholds fd hfd

theorem MonitorSys.Inv.setStop (h : s.Inv) {stop : StopPhase} {running : Bool}
    (hbefore : s.stop.beforeJoin → stop.beforeJoin) (hclosed : stop.hasClosed = s.stop.hasClosed) :
    { s with stop, running }.Inv := by
  obtain ⟨fds, serverFd, running₀, server, stop₀, opened, closes⟩ := s
  cases server with
  | start => exact ⟨hbefore h.1, h.2⟩
  | socketed fd | bound fd | refused fd | looping fd | polling fd => exact ⟨hbefore h.1, h.2⟩
  | serving fd client => exact ⟨hbefore h.1, h.2⟩
  | returned exit =>
    cases exit with
    | noSocket => exact h
    | refused | stopped =>
      unfold Inv at h ⊢
      simp only [hclosed] at h ⊢
      exact h

theorem MonitorSys.Inv.returned (h : s.Inv) (hjoin : s.stop.beforeJoin = false) :
    ∃ exit, s.server = .returned exit := by
  cases hserver : s.server with
  | returned exit => exact ⟨exit, rfl⟩
  | start | socketed | bound | refused | looping | polling | serving =>
    unfold Inv at h
    rw [hserver] at h
    exact absurd h.1 (by rw [hjoin]; decide)

/-- What each action finds and what it leaves. -/
theorem monitorStep_cases {a : MonitorAct} (hstep : monitorStep s a = some (t, u)) :
    match a with
    | .socket none => s.server = .start ∧ t = { s with server := .returned .noSocket }
    | .socket (some fd) => s.server = .start ∧ s.fds fd = none ∧ t = { s with
        fds := Function.update s.fds fd (some .listening)
        serverFd := some fd
        server := .socketed fd
        opened := some fd }
    | .bind ok => ∃ fd, s.server = .socketed fd ∧
        t = { s with server := if ok then .bound fd else .refused fd }
    | .listen ok => ∃ fd, s.server = .bound fd ∧
        t = { s with server := if ok then .looping fd else .refused fd }
    | .closeRefused => ∃ fd, s.server = .refused fd ∧
        t = { s.close .serverThread fd with server := .returned .refused }
    | .test => ∃ fd, s.server = .looping fd ∧
        t = { s with server := if s.running then .polling fd else .returned .stopped }
    | .poll none => ∃ fd, s.server = .polling fd ∧ t = { s with server := .looping fd }
    | .poll (some client) => ∃ fd, s.server = .polling fd ∧ s.fds client = none ∧ t = { s with
        fds := Function.update s.fds client (some .client)
        server := .serving fd client }
    | .closeClient => ∃ fd client, s.server = .serving fd client ∧
        t = { s with fds := Function.update s.fds client none, server := .looping fd }
    | .stop => s.stop = .idle ∧ t = { s with running := false, stop := .stopping }
    | .join => ∃ exit, s.server = .returned exit ∧ s.stop = .stopping ∧
        t = { s with stop := .joined }
    | .closeServer => s.stop = .joined ∧
        (s.serverFd = none ∧ t = { s with stop := .closed } ∨
          ∃ fd, s.serverFd = some fd ∧
            t = { s.close .stopService fd with serverFd := none, stop := .closed })
    | .finish => s.stop = .closed ∧ t = { s with stop := .finished }
    | .otherOpen fd => s.fds fd = none ∧
        t = { s with fds := Function.update s.fds fd (some .other) }
    | .otherClose fd => s.fds fd = some .other ∧
        t = { s with fds := Function.update s.fds fd none } := by
  cases a with
  | socket fd =>
    cases fd with
    | none =>
      simp only [monitorStep] at hstep
      split at hstep
      · next hserver =>
        cases hstep
        exact ⟨hserver, rfl⟩
      · cases hstep
    | some fd =>
      simp only [monitorStep] at hstep
      split at hstep
      · next hguard =>
        cases hstep
        exact ⟨hguard.1, hguard.2, rfl⟩
      · cases hstep
  | bind | listen | closeRefused | test =>
    simp only [monitorStep] at hstep
    split at hstep
    · next fd hserver =>
      cases hstep
      exact ⟨fd, hserver, rfl⟩
    · cases hstep
  | poll client =>
    cases client with
    | none =>
      simp only [monitorStep] at hstep
      split at hstep
      · next fd hserver =>
        cases hstep
        exact ⟨fd, hserver, rfl⟩
      · cases hstep
    | some client =>
      simp only [monitorStep] at hstep
      split at hstep
      · next fd hserver =>
        split at hstep
        · next hfree =>
          cases hstep
          exact ⟨fd, hserver, hfree, rfl⟩
        · cases hstep
      · cases hstep
  | closeClient =>
    simp only [monitorStep] at hstep
    split at hstep
    · next fd client hserver =>
      cases hstep
      exact ⟨fd, client, hserver, rfl⟩
    · cases hstep
  | join =>
    simp only [monitorStep] at hstep
    split at hstep
    · next exit hserver =>
      split at hstep
      · next hstopping =>
        cases hstep
        exact ⟨exit, hserver, hstopping, rfl⟩
      · cases hstep
    · cases hstep
  | closeServer =>
    simp only [monitorStep] at hstep
    split at hstep
    · next hjoined =>
      refine ⟨hjoined, ?_⟩
      split at hstep
      · next fd hfd =>
        cases hstep
        exact .inr ⟨fd, hfd, rfl⟩
      · next hfd =>
        cases hstep
        exact .inl ⟨hfd, rfl⟩
    · cases hstep
  | stop | finish | otherOpen | otherClose =>
    simp only [monitorStep] at hstep
    split at hstep
    · next hguard =>
      cases hstep
      exact ⟨hguard, rfl⟩
    · cases hstep

/-- Every step keeps the invariant, whatever the other components do. -/
theorem monitorStep_inv {a : MonitorAct} (h : s.Inv) (hstep : monitorStep s a = some (t, u)) :
    t.Inv := by
  have hcase := monitorStep_cases hstep
  cases a with
  | socket fd =>
    cases fd with
    | none =>
      obtain ⟨hserver, rfl⟩ := hcase
      unfold MonitorSys.Inv at h ⊢
      rw [hserver] at h
      exact h.2
    | some fd =>
      obtain ⟨hserver, -, rfl⟩ := hcase
      unfold MonitorSys.Inv at h ⊢
      rw [hserver] at h
      exact ⟨h.1, rfl, rfl, Function.update_self fd _ _, h.2.2.2⟩
  | bind ok | listen ok =>
    obtain ⟨fd, hserver, rfl⟩ := hcase
    unfold MonitorSys.Inv at h ⊢
    rw [hserver] at h
    cases ok <;> exact h
  | closeRefused =>
    obtain ⟨fd, hserver, rfl⟩ := hcase
    unfold MonitorSys.Inv at h ⊢
    rw [hserver] at h
    obtain ⟨hbefore, hserverFd, hopened, howner, hcloses⟩ := h
    have hclosed := StopPhase.hasClosed_of_beforeJoin hbefore
    refine ⟨fd, hopened, ?_⟩
    simp only [MonitorSys.close, hclosed, Bool.false_eq_true, if_false, howner, hcloses]
    exact ⟨hserverFd, rfl⟩
  | test =>
    obtain ⟨fd, hserver, rfl⟩ := hcase
    unfold MonitorSys.Inv at h ⊢
    rw [hserver] at h
    cases hrunning : s.running with
    | true => exact h
    | false =>
      have hclosed := StopPhase.hasClosed_of_beforeJoin h.1
      refine ⟨fd, ?_⟩
      simp only [hclosed, Bool.false_eq_true, if_false]
      exact h.2
  | poll client =>
    cases client with
    | none =>
      obtain ⟨fd, hserver, rfl⟩ := hcase
      unfold MonitorSys.Inv at h ⊢
      rw [hserver] at h
      exact h
    | some client =>
      obtain ⟨fd, hserver, hfree, rfl⟩ := hcase
      unfold MonitorSys.Inv at h ⊢
      rw [hserver] at h
      obtain ⟨hbefore, hserverFd, hopened, howner, hcloses⟩ := h
      have hkeep := owner_update (m := client) howner (by rw [hfree]; decide) (some .client)
      exact ⟨hbefore, ⟨hserverFd, hopened, hkeep, hcloses⟩, Function.update_self client _ _⟩
  | closeClient =>
    obtain ⟨fd, client, hserver, rfl⟩ := hcase
    unfold MonitorSys.Inv at h ⊢
    rw [hserver] at h
    obtain ⟨hbefore, ⟨hserverFd, hopened, howner, hcloses⟩, hclient⟩ := h
    have hkeep := owner_update (m := client) howner (by rw [hclient]; decide) none
    exact ⟨hbefore, hserverFd, hopened, hkeep, hcloses⟩
  | stop =>
    obtain ⟨hidle, rfl⟩ := hcase
    exact h.setStop (fun _ => rfl) (by rw [hidle]; rfl)
  | join =>
    obtain ⟨exit, hserver, hstopping, rfl⟩ := hcase
    unfold MonitorSys.Inv at h ⊢
    rw [hserver, hstopping] at h
    rw [hserver]
    cases exit <;> exact h
  | closeServer =>
    obtain ⟨hjoined, hfd⟩ := hcase
    obtain ⟨exit, hserver⟩ := h.returned (by rw [hjoined]; rfl)
    unfold MonitorSys.Inv at h ⊢
    rw [hserver, hjoined] at h
    cases exit with
    | noSocket =>
      obtain ⟨hserverFd, hopened, hcloses⟩ := h
      rw [hserverFd] at hfd
      obtain ⟨-, rfl⟩ | ⟨fd, ⟨⟩, -⟩ := hfd
      rw [hserver]
      exact ⟨rfl, hopened, hcloses⟩
    | refused =>
      -- the number is still there, whoever has it now
      obtain ⟨fd, hopened, hserverFd, hcloses⟩ := h
      rw [hserverFd] at hfd
      obtain ⟨⟨⟩, -⟩ | ⟨fd, ⟨⟩, rfl⟩ := hfd
      simp only [MonitorSys.close, hserver, hcloses]
      exact ⟨fd, hopened, s.fds fd, rfl⟩
    | stopped =>
      obtain ⟨fd, hserverFd, hopened, howner, hcloses⟩ := h
      rw [hserverFd] at hfd
      obtain ⟨⟨⟩, -⟩ | ⟨fd, ⟨⟩, rfl⟩ := hfd
      simp only [MonitorSys.close, hserver, hcloses, howner]
      exact ⟨fd, hopened, rfl⟩
  | finish =>
    obtain ⟨hclosed, rfl⟩ := hcase
    exact h.setStop (fun hbefore => by rw [hclosed] at hbefore; exact hbefore)
      (by rw [hclosed]; rfl)
  | otherOpen fd =>
    obtain ⟨hfree, rfl⟩ := hcase
    exact h.others fun n o ho hn => owner_update hn (by rw [hfree]; exact nofun) _
  | otherClose fd =>
    obtain ⟨hother, rfl⟩ := hcase
    refine h.others fun n o ho hn => owner_update hn ?_ _
    rw [hother]
    exact fun heq => ho (Option.some.inj heq).symm

theorem monitorStep_refused {a : MonitorAct} (hstep : monitorStep s a = some (t, u)) :
    t.server.hasRefused ↔ s.server.hasRefused ∨ a = .bind false ∨ a = .listen false := by
  have hcase := monitorStep_cases hstep
  cases a with
  | socket fd =>
    cases fd with
    | none =>
      obtain ⟨hserver, rfl⟩ := hcase
      simp [hserver, ServerPhase.hasRefused]
    | some fd =>
      obtain ⟨hserver, -, rfl⟩ := hcase
      simp [hserver, ServerPhase.hasRefused]
  | bind ok | listen ok =>
    obtain ⟨fd, hserver, rfl⟩ := hcase
    cases ok <;> simp [hserver, ServerPhase.hasRefused]
  | closeRefused =>
    obtain ⟨fd, hserver, rfl⟩ := hcase
    simp [hserver, ServerPhase.hasRefused]
  | test =>
    obtain ⟨fd, hserver, rfl⟩ := hcase
    cases s.running <;> simp [hserver, ServerPhase.hasRefused]
  | poll client =>
    cases client with
    | none =>
      obtain ⟨fd, hserver, rfl⟩ := hcase
      simp [hserver, ServerPhase.hasRefused]
    | some client =>
      obtain ⟨fd, hserver, -, rfl⟩ := hcase
      simp [hserver, ServerPhase.hasRefused]
  | closeClient =>
    obtain ⟨fd, client, hserver, rfl⟩ := hcase
    simp [hserver, ServerPhase.hasRefused]
  | stop | finish | otherOpen fd | otherClose fd =>
    obtain ⟨-, rfl⟩ := hcase
    simp
  | join =>
    obtain ⟨exit, -, -, rfl⟩ := hcase
    simp
  | closeServer =>
    obtain ⟨-, ⟨-, rfl⟩ | ⟨fd, -, rfl⟩⟩ := hcase <;> simp [MonitorSys.close]

end Steps

section Runs

variable {others : Nat → Bool} {s : MonitorSys} {tr : List (MonitorAct × Unit)}

theorem monitor_run_inv (h : Run monitorStep (MonitorSys.start others) tr s) : s.Inv :=
  h.invariant (fun _ _ _ _ hI hstep => monitorStep_inv hI hstep) ⟨rfl, rfl, rfl, rfl⟩

theorem monitor_run_refused (h : Run monitorStep (MonitorSys.start others) tr s) :
    s.server.hasRefused ↔ ∃ x ∈ tr, x.1 = .bind false ∨ x.1 = .listen false := by
  have hstart : (MonitorSys.start others).server.hasRefused ↔
      ∃ x ∈ ([] : List (MonitorAct × Unit)), x.1 = .bind false ∨ x.1 = .listen false := by
    simp [MonitorSys.start, ServerPhase.hasRefused]
  refine Run.history (I := fun tr s => s.server.hasRefused ↔
    ∃ x ∈ tr, x.1 = .bind false ∨ x.1 = .listen false) ?_ h hstart
  intro tr s a t e hI hstep
  rw [monitorStep_refused hstep, hI]
  simp only [List.mem_append, List.mem_singleton, or_and_right, exists_or, exists_eq_left]

/-- **Exactly one close.** Over a whole run, from the start of the service to the end of
`monitor_stop_service`, the listening descriptor is closed exactly once and by its owner,
exactly where neither `bind` nor `listen` failed. The error paths leave the number they
closed in `mon->server_fd`. -/
theorem monitor_closes_own_once (others : Nat → Bool) {s : MonitorSys}
    {tr : List (MonitorAct × Unit)} (h : Run monitorStep (MonitorSys.start others) tr s)
    (hdone : s.stop = .finished) :
    s.ClosesOwnOnce ↔ ∀ x ∈ tr, x.1 ≠ .bind false ∧ x.1 ≠ .listen false := by
  have hrefused : (∀ x ∈ tr, x.1 ≠ .bind false ∧ x.1 ≠ .listen false) ↔
      ¬ s.server.hasRefused := by
    rw [monitor_run_refused h]
    push Not
    rfl
  have hI := monitor_run_inv h
  obtain ⟨exit, hserver⟩ := hI.returned (by rw [hdone]; rfl)
  rw [hrefused, hserver]
  unfold MonitorSys.Inv at hI
  rw [hserver, hdone] at hI
  unfold MonitorSys.ClosesOwnOnce
  cases exit with
  | noSocket =>
    obtain ⟨-, hopened, hcloses⟩ := hI
    rw [hopened, hcloses]
    exact iff_of_true ⟨rfl, by simp⟩ (by decide)
  | refused =>
    obtain ⟨fd, hopened, owner, hcloses⟩ := hI
    rw [hopened, hcloses]
    exact iff_of_false (fun honce => by simp at honce) (by decide)
  | stopped =>
    obtain ⟨fd, hopened, hcloses⟩ := hI
    rw [hopened, hcloses]
    exact iff_of_true ⟨rfl, by simp⟩ (by decide)

end Runs

theorem monitor_closes_own_once_stopped :
    ∃ tr s, Run monitorStep (MonitorSys.start fun _ => false) tr s ∧ s.closes.length = 1 ∧
      s.ClosesOwnOnce := by
  have hrun : ∃ s, Run monitorStep (MonitorSys.start fun _ => false)
      [(.socket (some 5), ()), (.bind true, ()), (.listen true, ()), (.test, ()),
        (.poll none, ()), (.stop, ()), (.test, ()), (.join, ()), (.closeServer, ()),
        (.finish, ())] s ∧ s.stop = .finished ∧ s.closes.length = 1 :=
    ⟨_, .cons rfl <| .cons rfl <| .cons rfl <| .cons rfl <| .cons rfl <| .cons rfl <|
      .cons rfl <| .cons rfl <| .cons rfl <| .cons rfl <| .nil _, rfl, rfl⟩
  obtain ⟨s, hrun, hdone, hlen⟩ := hrun
  exact ⟨_, s, hrun, hlen, (monitor_closes_own_once _ hrun hdone).mpr (by decide)⟩

/-- After a failed `bind` another component gets the number, and the stop closes it. -/
theorem refused_socket_closed_twice :
    ∃ s, Run monitorStep (MonitorSys.start fun _ => false)
      [(.socket (some 5), ()), (.bind false, ()), (.closeRefused, ()), (.otherOpen 5, ()),
        (.stop, ()), (.join, ()), (.closeServer, ()), (.finish, ())] s ∧ s.stop = .finished ∧
      s.closes = [⟨.serverThread, 5, some .listening⟩, ⟨.stopService, 5, some .other⟩] ∧
      ¬ s.ClosesOwnOnce := by
  refine ⟨_, .cons rfl <| .cons rfl <| .cons rfl <| .cons rfl <| .cons rfl <| .cons rfl <|
    .cons rfl <| .cons rfl <| .nil _, rfl, rfl, ?_⟩
  rintro ⟨-, hown⟩
  exact hown ⟨.stopService, 5, some .other⟩ (List.mem_cons_of_mem _ (List.mem_singleton.mpr rfl))
    rfl rfl

end Mec
