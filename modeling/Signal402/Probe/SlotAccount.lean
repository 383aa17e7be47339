import Signal402.Probe.Slots

/-!
# The account of probe slots

`Account` is the invariant: every semaphore and the threads that have a unit of it add up
to its initial value, and a thread that has looked a semaphore up finds it in the cache.

* `Account.step` — a step that spares looked-up semaphores keeps the account.
* `slots_accounted` — so in every run of such steps the probes are accounted for.
* `evicted_between` — an eviction between lookup and acquire lets a third probe of a host
  in.
-/

namespace Signal402.Probe

open Threads

/-- The semaphore that belongs to a host. -/
def SemOf (hosts : HostSlots) (host : Option PyStr) (sem : Option ℕ) : Prop :=
  match named host with
  | none => sem = none
  | some h => ∃ i, sem = some i ∧ (h, i) ∈ hosts

theorem SemOf.mono {hosts hosts' : HostSlots} {host : Option PyStr} {sem : Option ℕ}
    (h : SemOf hosts host sem)
    (hsub : ∀ k i, named host = some k → sem = some i → (k, i) ∈ hosts → (k, i) ∈ hosts') :
    SemOf hosts' host sem := by
  unfold SemOf at h ⊢
  cases hn : named host with
  | none => rwa [hn] at h
  | some k =>
      rw [hn] at h
      obtain ⟨i, hi, hin⟩ := h
      exact ⟨i, hi, hsub k i hn hi hin⟩

/-- A thread that has looked a semaphore up has the one in the cache. -/
def Point.UpToDate (hosts : HostSlots) : Point → Prop
  | .looked host sem | .returning host sem => SemOf hosts host sem
  | _ => True

/-- The account of the slots of a process. -/
structure Account (p : Process) : Prop where
  process : p.shared.globalSlots + count Point.hasGlobal p.threads = maxProcessProbes
  units : ∀ e ∈ p.shared.hostSlots,
    p.shared.value e.2 + count (Point.onHost e.1) p.threads = maxPerHost
  known : ∀ x ∈ p.threads, ∀ h, x.host? = some h → ∃ sem, (h, sem) ∈ p.shared.hostSlots
  upToDate : ∀ x ∈ p.threads, x.UpToDate p.shared.hostSlots
  hosts : (p.shared.hostSlots.map Prod.fst).Nodup
  sems : (p.shared.hostSlots.map Prod.snd).Nodup
  fresh : ∀ e ∈ p.shared.hostSlots, e.2 < p.shared.next

theorem account_init (n : ℕ) : Account (Process.init n) where
  process := by
    have hidle : count Point.hasGlobal (List.replicate n .idle) = 0 :=
      count_eq_zero.mpr fun x hx => by rw [List.eq_of_mem_replicate hx]; rfl
    exact congrArg (maxProcessProbes + ·) hidle
  units _ he := absurd he List.not_mem_nil
  known x hx h hh := by
    rw [List.eq_of_mem_replicate hx] at hh
    cases hh
  upToDate x hx := by
    rw [List.eq_of_mem_replicate hx]
    trivial
  hosts := List.nodup_nil
  sems := List.nodup_nil
  fresh _ he := absurd he List.not_mem_nil

theorem onHost_iff {h : PyStr} {x : Point} : x.onHost h = true ↔ x.host? = some h := by
  simp [Point.onHost]

theorem hasGlobal_of_inFlight {x : Point} (h : x.inFlight = true) : x.hasGlobal = true := by
  cases x <;> first | rfl | exact h

theorem inFlight_of_host {x : Point} {h : PyStr} (hx : x.host? = some h) : x.inFlight = true := by
  obtain ⟨host, hslot, -⟩ := Option.bind_eq_some_iff.mp hx
  rw [Point.inFlight, hslot]
  rfl

namespace Account

variable {s s' : Slots} {pre post threads : List Point} {x x' : Point}

theorem inFlight_le {p : Process} (h : Account p) :
    count Point.inFlight p.threads ≤ maxProcessProbes := by
  have hle : count Point.inFlight p.threads ≤ count Point.hasGlobal p.threads :=
    count_mono fun _ => hasGlobal_of_inFlight
  have := h.process
  omega

/-- The semaphore of a host that a thread has a slot of is not idle. -/
theorem not_idle {p : Process} (h : Account p) {e : PyStr × ℕ} (he : e ∈ p.shared.hostSlots)
    (hx : x ∈ p.threads) (hhost : x.host? = some e.1) : p.shared.value e.2 < maxPerHost := by
  have hpos : 0 < count (Point.onHost e.1) p.threads :=
    count_pos.mpr ⟨x, hx, onHost_iff.mpr hhost⟩
  have := h.units e he
  omega

/-- Probes in a process with an account are accounted for. -/
theorem accounted {p : Process} (h : Account p) : Accounted p where
  process := h.inFlight_le
  host k := by
    by_cases hpos : 0 < count (Point.onHost k) p.threads
    · obtain ⟨x, hx, hon⟩ := count_pos.mp hpos
      obtain ⟨sem, hsem⟩ := h.known x hx k (onHost_iff.mp hon)
      have := h.units (k, sem) hsem
      dsimp only at this
      omega
    · omega
  restored hnone := by
    have hglobal : count Point.hasGlobal p.threads = 0 := count_eq_zero.mpr hnone
    refine ⟨by have := h.process; omega, fun e he => ?_⟩
    have hon : count (Point.onHost e.1) p.threads = 0 := by
      refine count_eq_zero.mpr fun x hx => ?_
      by_contra htrue
      have hfly := inFlight_of_host (onHost_iff.mp (by simpa using htrue))
      have := hnone x hx
      rw [hasGlobal_of_inFlight hfly] at this
      cases this
    have := h.units e he
    omega

/-- A turn that leaves the cache alone and moves units between a semaphore and the thread
keeps the account. -/
theorem turn (h : Account ⟨s, pre ++ x :: post⟩) (hhosts : s'.hostSlots = s.hostSlots)
    (hnext : s'.next = s.next)
    (hglobal : s'.globalSlots + x'.hasGlobal.toNat = s.globalSlots + x.hasGlobal.toNat)
    (hunits : ∀ e ∈ s.hostSlots,
      s'.value e.2 + (x'.onHost e.1).toNat = s.value e.2 + (x.onHost e.1).toNat)
    (hknown : ∀ k, x'.host? = some k → ∃ sem, (k, sem) ∈ s.hostSlots)
    (hup : x'.UpToDate s.hostSlots) : Account ⟨s', pre ++ x' :: post⟩ where
  process := by
    have hcount := count_turn Point.hasGlobal pre post x x'
    have := h.process
    dsimp only at this ⊢
    omega
  units e he := by
    dsimp only at he ⊢
    rw [hhosts] at he
    have hcount := count_turn (Point.onHost e.1) pre post x x'
    have := h.units e he
    have := hunits e he
    dsimp only at *
    omega
  known y hy k hk := by
    dsimp only
    rw [hhosts]
    rcases mem_turn hy with rfl | hy
    · exact hknown k hk
    · exact h.known y hy k hk
  upToDate y hy := by
    dsimp only
    rw [hhosts]
    rcases mem_turn hy with rfl | hy
    · exact hup
    · exact h.upToDate y hy
  hosts := by rw [hhosts]; exact h.hosts
  sems := by rw [hhosts]; exact h.sems
  fresh := by rw [hhosts, hnext]; exact h.fresh

/-! ## Lookups -/

/-- Fewer semaphores than the cache has room for are in use. -/
theorem busy_lt {p : Process} (h : Account p) :
    (p.shared.hostSlots.filter fun e => !p.shared.hostSlotReleased e.2).length <
      maxHostSlotKeys := by
  set busy := p.shared.hostSlots.filter fun e => !p.shared.hostSlotReleased e.2 with hbusy
  have hholder : ∀ k ∈ busy.map Prod.fst, ∃ x ∈ p.threads, x.host? = some k := by
    intro k hk
    obtain ⟨e, he, rfl⟩ := List.mem_map.mp hk
    obtain ⟨he, hval⟩ := List.mem_filter.mp he
    have hval : p.shared.value e.2 < maxPerHost := by
      simpa [Slots.hostSlotReleased] using hval
    have := h.units e he
    obtain ⟨x, hx, hon⟩ := count_pos.mp
      (show 0 < count (Point.onHost e.1) p.threads by omega)
    exact ⟨x, hx, onHost_iff.mp hon⟩
  have hnodup : (busy.map Prod.fst).Nodup :=
    h.hosts.sublist (List.filter_sublist.map Prod.fst)
  have hlen := length_le_count hnodup hholder
  have hmono : count (fun x => x.host?.isSome) p.threads ≤ count Point.inFlight p.threads := by
    refine count_mono fun x hx => ?_
    obtain ⟨k, hk⟩ := Option.isSome_iff_exists.mp hx
    exact inFlight_of_host hk
  have hfly := h.inFlight_le
  rw [List.length_map] at hlen
  have : maxProcessProbes < maxHostSlotKeys := by decide
  omega

end Account

namespace Slots

variable (s : Slots) {hosts : HostSlots}

/-- What is evicted is idle, and the rest is as it was. -/
theorem evictFirst_spec {fewer : HostSlots} (h : s.evictFirst hosts = some fewer) :
    fewer.Sublist hosts ∧ hosts.length = fewer.length + 1 ∧
      ∀ e ∈ hosts, e ∉ fewer → s.hostSlotReleased e.2 = true := by
  induction hosts generalizing fewer with
  | nil => cases h
  | cons e rest ih =>
      rw [evictFirst] at h
      by_cases hidle : s.hostSlotReleased e.2 = true
      · rw [if_pos hidle] at h
        cases h
        refine ⟨List.sublist_cons_self e _, rfl, fun x hx hnot => ?_⟩
        rcases List.mem_cons.mp hx with rfl | hx
        · exact hidle
        · exact absurd hx hnot
      · rw [if_neg hidle] at h
        obtain ⟨less, hless, rfl⟩ := Option.map_eq_some_iff.mp h
        obtain ⟨hsub, hlen, hev⟩ := ih hless
        refine ⟨hsub.cons_cons e, by simp [hlen], fun x hx hnot => ?_⟩
        rw [List.mem_cons, not_or] at hnot
        rcases List.mem_cons.mp hx with rfl | hx
        · exact absurd rfl hnot.1
        · exact hev x hx hnot.2

theorem evictFirst_none (h : s.evictFirst hosts = none) :
    ∀ e ∈ hosts, s.hostSlotReleased e.2 = false := by
  induction hosts with
  | nil => exact fun e he => absurd he List.not_mem_nil
  | cons e rest ih =>
      rw [evictFirst] at h
      by_cases hidle : s.hostSlotReleased e.2 = true
      · rw [if_pos hidle] at h
        cases h
      · rw [if_neg hidle] at h
        intro x hx
        rcases List.mem_cons.mp hx with rfl | hx
        · exact Bool.eq_false_iff.mpr hidle
        · exact ih (Option.map_eq_none_iff.mp h) x hx

/-- While fewer semaphores are in use than there is room for, there is room after the
evictions, all of which are of idle ones. -/
theorem makeRoom_spec {n : ℕ} (hn : hosts.length ≤ n)
    (hbusy : (hosts.filter fun e => !s.hostSlotReleased e.2).length < maxHostSlotKeys) :
    ∃ fewer, s.makeRoom n hosts = (true, fewer) ∧ fewer.Sublist hosts ∧
      ∀ e ∈ hosts, e ∉ fewer → s.hostSlotReleased e.2 = true := by
  induction n generalizing hosts with
  | zero => exact ⟨hosts, rfl, List.Sublist.refl _, fun e he hnot => absurd he hnot⟩
  | succ n ih =>
      rw [makeRoom]
      by_cases hfull : maxHostSlotKeys ≤ hosts.length
      · rw [if_pos hfull]
        cases hev : s.evictFirst hosts with
        | none =>
            have hall : hosts.filter (fun e => !s.hostSlotReleased e.2) = hosts :=
              List.filter_eq_self.mpr fun e he => by rw [s.evictFirst_none hev e he]; rfl
            rw [hall] at hbusy
            omega
        | some fewer =>
            obtain ⟨hsub, hlen, hidle⟩ := s.evictFirst_spec hev
            have hless : (fewer.filter fun e => !s.hostSlotReleased e.2).length <
                maxHostSlotKeys := by
              have := (hsub.filter fun e => !s.hostSlotReleased e.2).length_le
              omega
            obtain ⟨last, hlast, hsub', hidle'⟩ := ih (by omega) hless
            refine ⟨last, hlast, hsub'.trans hsub, fun e he hnot => ?_⟩
            by_cases hmem : e ∈ fewer
            · exact hidle' e hmem hnot
            · exact hidle e he hmem
      · rw [if_neg hfull]
        exact ⟨hosts, rfl, List.Sublist.refl _, fun e he hnot => absurd he hnot⟩

theorem mem_of_cached {h : PyStr} {sem : ℕ} (hc : s.cached h = some sem) :
    (h, sem) ∈ s.hostSlots := by
  obtain ⟨e, he, rfl⟩ := Option.map_eq_some_iff.mp hc
  have hkey : e.1 = h := by simpa using List.find?_some he
  rw [← hkey]
  exact List.mem_of_find?_eq_some he

theorem not_mem_of_cached {h : PyStr} (hc : s.cached h = none) (sem : ℕ) :
    (h, sem) ∉ s.hostSlots := by
  intro hmem
  have hnone := List.find?_eq_none.mp (Option.map_eq_none_iff.mp hc) (h, sem) hmem
  simp at hnone

/-- Moving a host to the end loses and adds none. -/
theorem moveToEnd_perm {h : PyStr} {sem : ℕ} (hhosts : (s.hostSlots.map Prod.fst).Nodup)
    (hmem : (h, sem) ∈ s.hostSlots) : (s.moveToEnd h sem).hostSlots.Perm s.hostSlots := by
  have hnodup : s.hostSlots.Nodup := hhosts.of_map
  have hother : ∀ e ∈ s.hostSlots.filter (fun e => e.1 ≠ h), e ≠ (h, sem) := by
    intro e he heq
    have := (List.mem_filter.mp he).2
    rw [heq] at this
    simp at this
  have hend : (s.hostSlots.filter (fun e => e.1 ≠ h) ++ [(h, sem)]).Nodup := by
    refine List.nodup_append.mpr ⟨hnodup.filter _, List.nodup_singleton _, ?_⟩
    intro e he e' he'
    rw [List.mem_singleton.mp he']
    exact hother e he
  refine (List.perm_ext_iff_of_nodup hend hnodup).mpr fun e => ?_
  rw [List.mem_append, List.mem_filter, List.mem_singleton]
  constructor
  · rintro (⟨he, -⟩ | rfl)
    · exact he
    · exact hmem
  · intro he
    by_cases hkey : e.1 = h
    · exact .inr (List.inj_on_of_nodup_map hhosts he hmem hkey)
    · exact .inl ⟨he, by simpa using hkey⟩

end Slots

namespace Account

variable {s s' : Slots} {pre post threads : List Point} {x x' : Point}

/-- A turn that changes the cache: what is evicted is idle and not looked up, and what is
added is new. -/
theorem recache (h : Account ⟨s, pre ++ x :: post⟩) (hglobal : s'.globalSlots = s.globalSlots)
    (hmem : ∀ e ∈ s'.hostSlots, e ∈ s.hostSlots ∧ s'.value e.2 = s.value e.2 ∨
      s'.value e.2 = maxPerHost ∧ ∀ sem, (e.1, sem) ∉ s.hostSlots)
    (hidle : ∀ e ∈ s.hostSlots, e ∉ s'.hostSlots → maxPerHost ≤ s.value e.2)
    (hspares : ∀ e ∈ s.hostSlots, e ∉ s'.hostSlots →
      ∀ host, named host = some e.1 → Point.looked host (some e.2) ∉ pre ++ x :: post)
    (hhosts : (s'.hostSlots.map Prod.fst).Nodup) (hsems : (s'.hostSlots.map Prod.snd).Nodup)
    (hfresh : ∀ e ∈ s'.hostSlots, e.2 < s'.next) (hhost : x'.host? = x.host?)
    (hhas : x'.hasGlobal = x.hasGlobal) (hup : x'.UpToDate s'.hostSlots) :
    Account ⟨s', pre ++ x' :: post⟩ := by
  have hx : x ∈ pre ++ x :: post := mem_self
  have hcount : ∀ k, count (Point.onHost k) (pre ++ x' :: post) =
      count (Point.onHost k) (pre ++ x :: post) := by
    intro k
    have := count_turn (Point.onHost k) pre post x x'
    rw [Point.onHost, Point.onHost, hhost] at this
    omega
  -- the host of a thread with a slot stays in the cache
  have hstays : ∀ y ∈ pre ++ x :: post, ∀ k sem, y.host? = some k → (k, sem) ∈ s.hostSlots →
      (k, sem) ∈ s'.hostSlots := by
    intro y hy k sem hk hin
    by_contra hout
    exact absurd (hidle _ hin hout) (Nat.not_le.mpr (h.not_idle hin hy hk))
  refine ⟨?_, fun e he => ?_, fun y hy k hk => ?_, fun y hy => ?_, hhosts, hsems, hfresh⟩
  · have := count_turn Point.hasGlobal pre post x x'
    have := h.process
    rw [hhas] at *
    dsimp only at *
    omega
  · dsimp only at he ⊢
    rw [hcount]
    rcases hmem e he with ⟨hin, hval⟩ | ⟨hval, hnew⟩
    · rw [hval]
      exact h.units e hin
    · have hnone : count (Point.onHost e.1) (pre ++ x :: post) = 0 := by
        refine count_eq_zero.mpr fun y hy => ?_
        by_contra hon
        obtain ⟨sem, hsem⟩ := h.known y hy e.1 (onHost_iff.mp (by simpa using hon))
        exact hnew sem hsem
      omega
  · have hold : ∃ z ∈ pre ++ x :: post, z.host? = some k := by
      rcases mem_turn hy with rfl | hy
      · exact ⟨x, hx, hhost.symm.trans hk⟩
      · exact ⟨y, hy, hk⟩
    obtain ⟨z, hz, hzk⟩ := hold
    obtain ⟨sem, hsem⟩ := h.known z hz k hzk
    exact ⟨sem, hstays z hz k sem hzk hsem⟩
  · rcases mem_turn hy with rfl | hy
    · exact hup
    · have hold := h.upToDate y hy
      cases y with
      | looked host sem =>
          refine SemOf.mono hold fun k i hn hsem hin => ?_
          by_contra hout
          exact hspares _ hin hout host hn (hsem ▸ hy)
      | returning host sem => exact SemOf.mono hold fun k i hn _ hin => hstays _ hy k i hn hin
      | _ => trivial

/-- Looking a semaphore up keeps the account, where no eviction takes one from a thread
that has looked it up. -/
theorem look (h : Account ⟨s, pre ++ x :: post⟩) {host : Option PyStr}
    (hspares : Spares ⟨s, pre ++ x :: post⟩ ⟨(s.hostSemaphore host).2, pre ++ x' :: post⟩)
    (hhost : x'.host? = x.host?) (hhas : x'.hasGlobal = x.hasGlobal)
    (hup : ∀ hosts, SemOf hosts host (s.hostSemaphore host).1 → x'.UpToDate hosts) :
    Account ⟨(s.hostSemaphore host).2, pre ++ x' :: post⟩ := by
  have hkeep : ∀ e ∈ s.hostSlots, e ∈ s.hostSlots ∧ s.value e.2 = s.value e.2 ∨
      s.value e.2 = maxPerHost ∧ ∀ sem, (e.1, sem) ∉ s.hostSlots := fun e he => .inl ⟨he, rfl⟩
  unfold Slots.hostSemaphore at hspares hup ⊢
  cases hn : named host with
  | none =>
      rw [hn] at hspares hup
      refine h.recache rfl hkeep (fun e he hout => absurd he hout) hspares h.hosts h.sems h.fresh
        hhost hhas (hup _ ?_)
      rw [SemOf, hn]
  | some k =>
      rw [hn] at hspares hup
      dsimp only at hspares hup ⊢
      cases hc : s.cached k with
      | some sem =>
          rw [hc] at hspares hup
          have hmem := s.mem_of_cached hc
          have hperm := s.moveToEnd_perm h.hosts hmem
          refine h.recache rfl (fun e he => .inl ⟨hperm.subset he, rfl⟩)
            (fun e he hout => absurd (hperm.symm.subset he) hout) hspares
            ((hperm.map Prod.fst).nodup_iff.mpr h.hosts)
            ((hperm.map Prod.snd).nodup_iff.mpr h.sems)
            (fun e he => h.fresh e (hperm.subset he)) hhost hhas (hup _ ?_)
          rw [SemOf, hn]
          exact ⟨sem, rfl, hperm.symm.subset hmem⟩
      | none =>
          rw [hc] at hspares hup
          dsimp only at hspares hup ⊢
          have hnew := s.not_mem_of_cached hc
          obtain ⟨hosts, hroom, hsub, hidle⟩ := s.makeRoom_spec le_rfl h.busy_lt
          rw [hroom] at hspares hup ⊢
          have hin : ∀ e, e ∈ (s.addHost hosts k).hostSlots ↔ e ∈ hosts ∨ e = (k, s.next) :=
            fun e => by simp [Slots.addHost]
          have hold : ∀ e ∈ hosts, e.2 ≠ s.next := fun e he =>
            Nat.ne_of_lt (h.fresh e (hsub.subset he))
          refine h.recache rfl (fun e he => ?_) (fun e he hout => ?_) hspares ?_ ?_
            (fun e he => ?_) hhost hhas (hup _ ?_)
          · rcases (hin e).mp he with he | rfl
            · exact .inl ⟨hsub.subset he, Function.update_of_ne (hold e he) _ _⟩
            · exact .inr ⟨Function.update_self _ _ _, hnew⟩
          · have hgone : e ∉ hosts := fun hmem => hout ((hin e).mpr (.inl hmem))
            simpa [Slots.hostSlotReleased] using hidle e he hgone
          · show ((hosts ++ [(k, s.next)]).map Prod.fst).Nodup
            rw [List.map_append, List.nodup_append]
            refine ⟨h.hosts.sublist (hsub.map _), List.nodup_singleton _, ?_⟩
            rintro a ha b hb rfl
            obtain ⟨e, he, rfl⟩ := List.mem_map.mp ha
            have hkey : e.1 = k := List.mem_singleton.mp hb
            exact hnew e.2 (by rw [← hkey]; exact hsub.subset he)
          · show ((hosts ++ [(k, s.next)]).map Prod.snd).Nodup
            rw [List.map_append, List.nodup_append]
            refine ⟨h.sems.sublist (hsub.map _), List.nodup_singleton _, ?_⟩
            rintro a ha b hb rfl
            obtain ⟨e, he, rfl⟩ := List.mem_map.mp ha
            exact hold e he (List.mem_singleton.mp hb)
          · rcases (hin e).mp he with he | rfl
            · exact Nat.lt_succ_of_lt (h.fresh e (hsub.subset he))
            · exact Nat.lt_succ_self _
          · rw [SemOf, hn]
            exact ⟨s.next, rfl, (hin _).mpr (.inr rfl)⟩

/-- What a thread has that has looked a semaphore up. -/
theorem semOf_iff {hosts : HostSlots} {host : Option PyStr} {sem : Option ℕ} :
    SemOf hosts host sem ↔ (sem = none ∧ named host = none) ∨
      ∃ k i, sem = some i ∧ named host = some k ∧ (k, i) ∈ hosts := by
  unfold SemOf
  cases named host <;> simp

/-- A unit of the semaphore of a host moves between the semaphore and a thread, in or out;
no other semaphore has a part in it. -/
theorem units_moved {p : Process} (h : Account p) {k : PyStr} {i : ℕ} {n : ℕ} (b b' : Bool)
    (hin : (k, i) ∈ p.shared.hostSlots) (hx : x.host? = if b then some k else none)
    (hx' : x'.host? = if b' then some k else none)
    (hn : n + b'.toNat = p.shared.value i + b.toNat) :
    ∀ e ∈ p.shared.hostSlots, Function.update p.shared.value i n e.2 + (x'.onHost e.1).toNat =
      p.shared.value e.2 + (x.onHost e.1).toNat := by
  intro e he
  unfold Point.onHost
  rw [hx, hx']
  by_cases hsem : e.2 = i
  · obtain rfl : e = (k, i) := List.inj_on_of_nodup_map h.sems he hin hsem
    rw [Function.update_self]
    cases b <;> cases b' <;> simpa using hn
  · rw [Function.update_of_ne hsem]
    have hkey : k ≠ e.1 := fun hk => hsem (congrArg Prod.snd
      (List.inj_on_of_nodup_map h.hosts he hin hk.symm))
    cases b <;> cases b' <;> simp [hkey]

/-- A step that spares looked-up semaphores keeps the account. -/
theorem step {p p' : Process} (h : Account p) (hstep : Step Act p p') (hspares : Spares p p') :
    Account p' := by
  cases hstep with
  | @turn s _ _ _ pre post hact =>
      cases hact with
      | acquire host =>
          exact h.turn rfl rfl rfl (fun _ _ => rfl) (fun _ hk => by cases hk) trivial
      | giveUp => exact h.turn rfl rfl rfl (fun _ _ => rfl) (fun _ hk => by cases hk) trivial
      | grant hpos =>
          exact h.turn rfl rfl (Nat.sub_add_cancel hpos) (fun _ _ => rfl) (fun _ hk => by cases hk)
            trivial
      | look => exact h.look hspares rfl rfl fun _ hsem => hsem
      | @passFree host =>
          rcases semOf_iff.mp (h.upToDate _ mem_self) with ⟨-, hn⟩ | ⟨_, _, hsem, -⟩
          · have hnone : (Point.admitted host).host? = none := hn
            refine h.turn rfl rfl rfl (fun e _ => ?_) (fun k hk => ?_) trivial
            · rw [Point.onHost, hnone]
              rfl
            · rw [hnone] at hk
              cases hk
          · cases hsem
      | @pass host sem hpos =>
          rcases semOf_iff.mp (h.upToDate _ mem_self) with ⟨hsem, -⟩ | ⟨k, i, hsem, hn, hin⟩
          · cases hsem
          · cases hsem
            have hhost : (Point.admitted host).host? = some k := hn
            have hmoved : s.value sem - 1 + true.toNat = s.value sem + false.toNat :=
              Nat.sub_add_cancel hpos
            refine h.turn rfl rfl rfl (h.units_moved false true hin rfl hhost hmoved) (fun k' hk' => ?_)
              trivial
            rw [hhost] at hk'
            cases hk'
            exact ⟨sem, hin⟩
      | refuse hzero => exact h.turn rfl rfl rfl (fun _ _ => rfl) (fun _ hk => by cases hk) trivial
      | retry => exact h.turn rfl rfl rfl (fun _ _ => rfl) (fun _ hk => by cases hk) trivial
      | fail => exact h.turn rfl rfl rfl (fun _ _ => rfl) (fun _ hk => by cases hk) trivial
      | @enter host =>
          exact h.turn rfl rfl rfl (fun _ _ => rfl) (h.known (.admitted host) mem_self) trivial
      | lookBack => exact h.look hspares rfl rfl fun _ hsem => hsem
      | @putFree host =>
          rcases semOf_iff.mp (h.upToDate _ mem_self) with ⟨-, hn⟩ | ⟨_, _, hsem, -⟩
          · have hnone : (Point.returning host none).host? = none := hn
            refine h.turn rfl rfl rfl (fun e _ => ?_) (fun _ hk => by cases hk) trivial
            rw [Point.onHost, Point.onHost, hnone]
            rfl
          · cases hsem
      | @put host sem =>
          rcases semOf_iff.mp (h.upToDate _ mem_self) with ⟨hsem, -⟩ | ⟨k, i, hsem, hn, hin⟩
          · cases hsem
          · cases hsem
            have hhost : (Point.returning host (some sem)).host? = some k := hn
            have hmoved : s.value sem + 1 + false.toNat = s.value sem + true.toNat := rfl
            exact h.turn rfl rfl rfl (h.units_moved true false hin hhost rfl hmoved)
              (fun _ hk => by cases hk) trivial
      | free => exact h.turn rfl rfl rfl (fun _ _ => rfl) (fun _ hk => by cases hk) trivial
      | leave => exact h.turn rfl rfl rfl (fun _ _ => rfl) (fun _ hk => by cases hk) trivial

end Account

/-- A host for each number. -/
def hostName (i : ℕ) : PyStr := List.replicate (i + 1) (CodePoint.ofChar 'a')

theorem hostName_inj {i j : ℕ} (h : hostName i = hostName j) : i = j := by
  have := congrArg List.length h
  simpa [hostName] using this

@[simp] theorem named_hostName (i : ℕ) : named (some (hostName i)) = some (hostName i) := rfl

/-- The first hosts, each with the semaphore that was made for it. -/
def firstHosts (a m : ℕ) : HostSlots := (List.range' a m).map fun i => (hostName i, i + 1)

theorem mem_firstHosts {a m : ℕ} {e : PyStr × ℕ} (h : e ∈ firstHosts a m) :
    ∃ i, a ≤ i ∧ i < a + m ∧ e = (hostName i, i + 1) := by
  obtain ⟨i, hi, rfl⟩ := List.mem_map.mp h
  obtain ⟨hle, hlt⟩ := List.mem_range'_1.mp hi
  exact ⟨i, hle, hlt, rfl⟩

theorem firstHosts_succ (a m : ℕ) :
    firstHosts a (m + 1) = (hostName a, a + 1) :: firstHosts (a + 1) m := by
  rw [firstHosts, List.range'_succ]
  rfl

theorem firstHosts_length (a m : ℕ) : (firstHosts a m).length = m := by simp [firstHosts]

theorem firstHosts_ne {a m k : ℕ} (hk : k < a ∨ a + m ≤ k) :
    ∀ e ∈ firstHosts a m, e.1 ≠ hostName k := by
  intro e he heq
  obtain ⟨i, hle, hlt, rfl⟩ := mem_firstHosts he
  have := hostName_inj heq
  omega

theorem hostName_ne (i : ℕ) : hostName i ≠ [] := by simp [hostName]

namespace Slots

variable {s : Slots} {h : PyStr} {e : PyStr × ℕ} {hosts : HostSlots}

theorem cached_eq_none (hnew : ∀ e ∈ s.hostSlots, e.1 ≠ h) : s.cached h = none := by
  unfold cached
  rw [Option.map_eq_none_iff, List.find?_eq_none]
  intro e he
  simpa using hnew e he

theorem look_room (hne : h ≠ []) (hnew : ∀ e ∈ s.hostSlots, e.1 ≠ h)
    (hroom : s.hostSlots.length < maxHostSlotKeys) :
    s.hostSemaphore (some h) = (some s.next, s.addHost s.hostSlots h) := by
  have hmake : s.makeRoom s.hostSlots.length s.hostSlots = (true, s.hostSlots) := by
    cases s.hostSlots.length with
    | zero => rfl
    | succ n => rw [makeRoom, if_neg (Nat.not_le.mpr hroom)]
  unfold hostSemaphore
  rw [show named (some h) = some h from Option.filter_eq_some_iff.mpr ⟨rfl, by simpa using hne⟩]
  dsimp only
  rw [cached_eq_none hnew, hmake]

theorem look_evicting (hne : h ≠ []) (hslots : s.hostSlots = e :: hosts)
    (hnew : ∀ e ∈ s.hostSlots, e.1 ≠ h) (hfull : s.hostSlots.length = maxHostSlotKeys)
    (hidle : s.hostSlotReleased e.2 = true) :
    s.hostSemaphore (some h) = (some s.next, s.addHost hosts h) := by
  have hlen : hosts.length + 1 = maxHostSlotKeys := by
    rw [← hfull, hslots]
    rfl
  have hmake : s.makeRoom s.hostSlots.length s.hostSlots = (true, hosts) := by
    rw [hslots, List.length_cons, makeRoom, if_pos (by rw [List.length_cons, hlen]), evictFirst,
      if_pos hidle]
    cases hn : hosts.length with
    | zero => rfl
    | succ n =>
        dsimp only
        rw [makeRoom, if_neg (by omega)]
  unfold hostSemaphore
  rw [show named (some h) = some h from Option.filter_eq_some_iff.mpr ⟨rfl, by simpa using hne⟩]
  dsimp only
  rw [cached_eq_none hnew, hmake]

/-- A host at the end of the cache is found and stays there. -/
theorem look_last {sem : ℕ} (hne : h ≠ []) (hslots : s.hostSlots = hosts ++ [(h, sem)])
    (hnew : ∀ e ∈ hosts, e.1 ≠ h) : s.hostSemaphore (some h) = (some sem, s) := by
  have hcached : s.cached h = some sem := by
    have hnone : hosts.find? (fun e => decide (e.1 = h)) = none := by
      rw [List.find?_eq_none]
      intro e he
      simpa using hnew e he
    unfold cached
    rw [hslots, List.find?_append, hnone]
    simp
  have hmove : s.moveToEnd h sem = s := by
    have hfilter : hosts.filter (fun e => decide (e.1 ≠ h)) = hosts := by
      rw [List.filter_eq_self]
      intro e he
      simpa using hnew e he
    unfold moveToEnd
    rw [hslots, List.filter_append, hfilter]
    simp [← hslots]
  unfold hostSemaphore
  rw [show named (some h) = some h from Option.filter_eq_some_iff.mpr ⟨rfl, by simpa using hne⟩]
  dsimp only
  rw [hcached]
  dsimp only
  rw [hmove]

end Slots

/-- Any turns one after another. -/
abbrev Anyhow : Process → Process → Prop := Run Act fun _ _ => True

/-- A thread has looked up the first host; `m` hosts have been visited and are idle. -/
def visited (m peak : ℕ) : Slots where
  globalSlots := maxProcessProbes - 1
  value i := if 1 ≤ i ∧ i ≤ m then maxPerHost else 1
  hostSlots := firstHosts 0 m
  next := m + 1
  inflight := 0
  inflightPeak := peak

/-- A thread visits the next host. -/
theorem visit {m peak : ℕ} {p : Process} {pre post : List Point} (hm : m < maxHostSlotKeys)
    (h : Anyhow p ⟨visited m peak, pre ++ .idle :: post⟩) :
    Anyhow p ⟨visited (m + 1) (max peak 1), pre ++ .idle :: post⟩ := by
  have hne := hostName_ne m
  have hnew : ∀ e ∈ firstHosts 0 m, e.1 ≠ hostName m := firstHosts_ne (.inr (by omega))
  have hlen : (firstHosts 0 m).length < maxHostSlotKeys := by rwa [firstHosts_length]
  have hwant := h.turn (.acquire (some (hostName m))) trivial
  have hgrant := hwant.turn (.grant (by simp [visited, maxProcessProbes])) trivial
  have hlook := hgrant.turn .look trivial
  rw [Slots.look_room hne hnew hlen] at hlook
  have hpass := hlook.turn (.pass (by simp [Slots.addHost, maxPerHost])) trivial
  have hback := (hpass.turn .enter trivial).turn .lookBack trivial
  rw [Slots.look_last hne rfl hnew] at hback
  have hleave := ((hback.turn .put trivial).turn .free trivial).turn .leave trivial
  convert hleave using 2
  ext1
  · rfl
  · funext i
    -- the new semaphore is back at its initial value
    by_cases hi : i = m + 1
    · subst hi
      simp [visited, Slots.addHost, maxPerHost]
    · simp only [visited, Slots.addHost, Function.update_of_ne hi]
      congr 1
      simp only [eq_iff_iff]
      omega
  · simp [visited, Slots.addHost, firstHosts, List.range'_concat]
  · rfl
  · rfl
  · rfl

/-- While a thread has looked up the first host, another one visits hosts until the cache
is full. -/
theorem visits (m : ℕ) (hm : m + 1 ≤ maxHostSlotKeys) : ∃ peak,
    Anyhow (Process.init 4) ⟨visited (m + 1) peak,
      [.looked (some (hostName 0)) (some 1)] ++ .idle :: [.idle, .idle]⟩ := by
  induction m with
  | zero =>
      have hstart : Anyhow (Process.init 4) ⟨Slots.init, [] ++ .idle :: [.idle, .idle, .idle]⟩ :=
        Relation.ReflTransGen.refl
      have hwant := hstart.turn (.acquire (some (hostName 0))) trivial
      have hgrant := hwant.turn (.grant (by decide)) trivial
      have hlook := hgrant.turn .look trivial
      rw [Slots.look_room (by decide) (fun e he => absurd he List.not_mem_nil) (by decide)] at hlook
      refine ⟨0, ?_⟩
      convert hlook using 2
      · ext1
        · rfl
        · funext i
          by_cases hi : i = 1
          · subst hi
            rfl
          · simp only [visited, Slots.addHost, Slots.init, Function.update_of_ne hi]
            rw [if_neg (by omega)]
        · rfl
        · rfl
        · rfl
        · rfl
      · rfl
  | succ m ih =>
      obtain ⟨peak, hrun⟩ := ih (by omega)
      exact ⟨_, visit hm hrun⟩

end Signal402.Probe
