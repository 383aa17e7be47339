import Signal402.Base.Json
import Signal402.Lib.Threads

/-!
# Probe slots (`probe.py`)

A process-wide semaphore, and one semaphore for each host in a bounded cache that evicts
idle ones.  `acquire_probe_slot` and `release_probe_slot` are read as steps of a thread:
every operation of a semaphore and every locked section is one of them.
-/

namespace Signal402.Probe

/-- `MAX_PROCESS_PROBES`. -/
def maxProcessProbes : ℕ := 10

/-- `MAX_PER_HOST`. -/
def maxPerHost : ℕ := 2

/-- `MAX_HOST_SLOT_KEYS`. -/
def maxHostSlotKeys : ℕ := 256

/-- `_host_slots`, the host that was used last at the end.  A semaphore is known by a
number. -/
abbrev HostSlots := List (PyStr × ℕ)

/-- What the threads share: `_global_slots`, the value of every other semaphore,
`_host_slots` and the two counters.  `next` is the first number not yet taken. -/
@[ext] structure Slots where
  globalSlots : ℕ
  value : ℕ → ℕ
  hostSlots : HostSlots
  next : ℕ
  inflight : ℕ
  inflightPeak : ℕ

/-- `_overflow_host_sem`. -/
def overflowHostSem : ℕ := 0

/-- The slots of a process that starts. -/
def Slots.init : Slots where
  globalSlots := maxProcessProbes
  value _ := 1
  hostSlots := []
  next := 1
  inflight := 0
  inflightPeak := 0

/-- A host that is not empty. -/
def named (host : Option PyStr) : Option PyStr := host.filter (· ≠ [])

namespace Slots

variable (s : Slots)

/-- `_host_slot_released`. -/
def hostSlotReleased (sem : ℕ) : Bool := maxPerHost ≤ s.value sem

/-- Delete the first host whose semaphore is idle. -/
def evictFirst : HostSlots → Option HostSlots
  | [] => none
  | e :: rest =>
      if s.hostSlotReleased e.2 then some rest else (evictFirst rest).map (e :: ·)

/-- `while len(_host_slots) >= MAX_HOST_SLOT_KEYS`: evict until there is room, as many
times as there are hosts; whether there is room then. -/
def makeRoom : ℕ → HostSlots → Bool × HostSlots
  | 0, hosts => (true, hosts)
  | n + 1, hosts =>
      if maxHostSlotKeys ≤ hosts.length then
        match s.evictFirst hosts with
        | some fewer => makeRoom n fewer
        | none => (false, hosts)
      else (true, hosts)

/-- The semaphore of a host in the cache. -/
def cached (h : PyStr) : Option ℕ := (s.hostSlots.find? fun e => e.1 = h).map Prod.snd

/-- `_host_slots.move_to_end`. -/
def moveToEnd (h : PyStr) (sem : ℕ) : Slots :=
  { s with hostSlots := s.hostSlots.filter (fun e => e.1 ≠ h) ++ [(h, sem)] }

/-- A new semaphore for a host. -/
def addHost (hosts : HostSlots) (h : PyStr) : Slots :=
  { s with
    value := Function.update s.value s.next maxPerHost
    hostSlots := hosts ++ [(h, s.next)]
    next := s.next + 1 }

/-- `_host_semaphore`. -/
def hostSemaphore (host : Option PyStr) : Option ℕ × Slots :=
  match named host with
  | none => (none, s)
  | some h =>
      match s.cached h with
      | some sem => (some sem, s.moveToEnd h sem)
      | none =>
          match s.makeRoom s.hostSlots.length s.hostSlots with
          | (true, hosts) => (some s.next, s.addHost hosts h)
          | (false, hosts) => (some overflowHostSem, { s with hostSlots := hosts })

end Slots

/-- Where a thread is.  It calls `acquire_probe_slot` at `idle`, and at `holding`, where
that has returned true, `release_probe_slot`. -/
inductive Point
  | idle
  | trying (host : Option PyStr)
  | granted (host : Option PyStr)
  | looked (host : Option PyStr) (sem : Option ℕ)
  | refused (host : Option PyStr)
  | admitted (host : Option PyStr)
  | holding (host : Option PyStr)
  | returning (host : Option PyStr) (sem : Option ℕ)
  | freeing
  | leaving
  deriving DecidableEq

/-- A step of a thread.  What the clock says is left open: a thread at the top of the
loop may give up, and one that was refused may give up or try again. -/
inductive Act : Slots → Point → Slots → Point → Prop
  | acquire {s : Slots} (host : Option PyStr) : Act s .idle s (.trying host)
  | giveUp {s : Slots} {host : Option PyStr} : Act s (.trying host) s .idle
  | grant {s : Slots} {host : Option PyStr} (h : 0 < s.globalSlots) :
      Act s (.trying host) { s with globalSlots := s.globalSlots - 1 } (.granted host)
  | look {s : Slots} {host : Option PyStr} :
      Act s (.granted host) (s.hostSemaphore host).2 (.looked host (s.hostSemaphore host).1)
  | passFree {s : Slots} {host : Option PyStr} : Act s (.looked host none) s (.admitted host)
  | pass {s : Slots} {host : Option PyStr} {sem : ℕ} (h : 0 < s.value sem) :
      Act s (.looked host (some sem))
        { s with value := Function.update s.value sem (s.value sem - 1) } (.admitted host)
  | refuse {s : Slots} {host : Option PyStr} {sem : ℕ} (h : s.value sem = 0) :
      Act s (.looked host (some sem)) s (.refused host)
  | retry {s : Slots} {host : Option PyStr} :
      Act s (.refused host) { s with globalSlots := s.globalSlots + 1 } (.trying host)
  | fail {s : Slots} {host : Option PyStr} :
      Act s (.refused host) { s with globalSlots := s.globalSlots + 1 } .idle
  | enter {s : Slots} {host : Option PyStr} :
      Act s (.admitted host)
        { s with
          inflight := s.inflight + 1
          inflightPeak := max s.inflightPeak (s.inflight + 1) } (.holding host)
  | lookBack {s : Slots} {host : Option PyStr} :
      Act s (.holding host) (s.hostSemaphore host).2 (.returning host (s.hostSemaphore host).1)
  | putFree {s : Slots} {host : Option PyStr} : Act s (.returning host none) s .freeing
  | put {s : Slots} {host : Option PyStr} {sem : ℕ} :
      Act s (.returning host (some sem))
        { s with value := Function.update s.value sem (s.value sem + 1) } .freeing
  | free {s : Slots} : Act s .freeing { s with globalSlots := s.globalSlots + 1 } .leaving
  | leave {s : Slots} : Act s .leaving { s with inflight := s.inflight - 1 } .idle

/-- A process with threads that acquire and release slots. -/
abbrev Process := Threads.State Slots Point

/-- A process of `n` threads that starts. -/
def Process.init (n : ℕ) : Process := ⟨Slots.init, List.replicate n .idle⟩

namespace Point

/-- The host of a thread that has a slot: that was let in, and has not yet put the
semaphore of its host back. -/
def slot : Point → Option (Option PyStr)
  | .admitted host | .holding host | .returning host _ => some host
  | _ => none

/-- A thread with a slot is in flight. -/
def inFlight (p : Point) : Bool := p.slot.isSome

/-- The named host that a thread has a slot of. -/
def host? (p : Point) : Option PyStr := p.slot.bind named

/-- The thread has a slot of a host. -/
def onHost (h : PyStr) (p : Point) : Bool := p.host? = some h

/-- The thread has a unit of the process-wide semaphore. -/
def hasGlobal : Point → Bool
  | .granted _ | .looked _ _ | .refused _ | .freeing => true
  | p => p.inFlight

end Point

/-- Probes are accounted for: at most ten are in flight, at most two of a host, and when
no thread has a unit of a semaphore, every semaphore is as it was at first. -/
structure Accounted (p : Process) : Prop where
  process : Threads.count Point.inFlight p.threads ≤ maxProcessProbes
  host : ∀ h, Threads.count (Point.onHost h) p.threads ≤ maxPerHost
  restored : (∀ x ∈ p.threads, x.hasGlobal = false) →
    p.shared.globalSlots = maxProcessProbes ∧
      ∀ e ∈ p.shared.hostSlots, p.shared.value e.2 = maxPerHost

/-- A step that evicts no semaphore of a host between a thread's lookup of it and the
thread's try to acquire it. -/
def Spares (p p' : Process) : Prop :=
  ∀ e ∈ p.shared.hostSlots, e ∉ p'.shared.hostSlots →
    ∀ host, named host = some e.1 → Point.looked host (some e.2) ∉ p.threads

end Signal402.Probe
