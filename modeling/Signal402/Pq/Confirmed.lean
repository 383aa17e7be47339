import Signal402.Base.Effect
import Signal402.Lib.History
import Signal402.Pq.Canary

/-!
# Confirmed anchors (`store.py`)

`save_confirmed_checkpoint` writes a row of `confirmed_anchors` and the JSON
pointer `last_confirmed_checkpoint`, each by its own statement and on four paths.

* `ConfirmedStore` — the rows and the pointer.
* `saveConfirmedCheckpoint` — the function, from the authorized rows it reads.
* `Agrees` — the pointer is the row with the largest tree size.
* `confirmed_anchors` — the rows and the pointer over any run of calls.
-/

namespace Signal402.Confirmed

open AnchorStore Canary

/-- A row of `confirmed_anchors`. -/
structure ConfirmedRow where
  treeSize : ℤ
  origin : PyStr
  root : PyStr
  txid : PyStr
  confirmedRound : ℤ
  at' : ℤ
  network : PyStr
  genesisId : PyStr
  deriving DecidableEq

/-- The fields of the pointer `last_confirmed_checkpoint`. -/
structure Checkpoint where
  size : ℤ := 0
  at' : ℤ := 0
  txid : PyStr := []
  round : ℤ := 0
  root : PyStr := []
  origin : PyStr := []
  network : PyStr := []
  genesisId : PyStr := []
  deriving DecidableEq

/-- The confirmed rows, and the pointer once it is written. -/
structure ConfirmedStore where
  rows : List ConfirmedRow
  pointer : Option Checkpoint

namespace ConfirmedStore

variable (c : ConfirmedStore)

def row (size : ℤ) : Option ConfirmedRow := Table.lookup ConfirmedRow.treeSize c.rows size

def lastConfirmedCheckpoint : Checkpoint := c.pointer.getD {}

end ConfirmedStore

/-! ## The arguments -/

/-- The `root` argument: bytes, or anything else as its text. -/
inductive RootArg
  | bytes (b : Bytes)
  | text (s : PyStr)

/-- The arguments of `save_confirmed_checkpoint`. -/
structure ConfirmArgs where
  treeSize : ℤ
  origin : PyStr
  root : RootArg
  txid : PyStr
  confirmedRound : ℤ
  at' : ℤ
  network : PyStr := []
  genesisId : PyStr := []

def conflict {A : Type} (msg : String) : Except PyError A := .error ⟨.conflictError, msg⟩

/-- `ORIGIN`. -/
def origin : PyStr := "402signal.com/pq/log"

def testnetName : PyStr := "testnet"
def mainnetName : PyStr := "mainnet"
def testnetGenesisId : PyStr := "testnet-v1.0"
def mainnetGenesisId : PyStr := "mainnet-v1.0"

/-- `network_for_genesis_id`, as the name of the network. -/
def networkForGenesisId (genesisId : PyStr) : Option PyStr :=
  if genesisId.strip = testnetGenesisId then some testnetName
  else if genesisId.strip = mainnetGenesisId then some mainnetName
  else none

/-- The network that a genesis names, which must be the one that is given, if any. -/
def networkOfGenesis (net gen : PyStr) : Except PyError PyStr :=
  if gen = [] then .ok net
  else
    match networkForGenesisId gen with
    | none => conflict "invalid confirmed genesis"
    | some name =>
        if net ≠ [] ∧ net ≠ name then conflict "network genesis mismatch"
        else .ok (if net = [] then name else net)

/-- Persist an independently known network only. -/
def normalizeConfirmedNetwork (network genesisId origin' : PyStr) :
    Except PyError (PyStr × PyStr) := do
  let net := network.strip.lower
  let gen := genesisId.strip
  if net ≠ [] ∧ ¬(net = testnetName ∨ net = mainnetName) then
    conflict "invalid confirmed network"
  else
    let net ← networkOfGenesis net gen
    let testnet := net = [] ∧ origin' = origin
    let net := if testnet then testnetName else net
    let gen := if testnet ∧ gen = [] then testnetGenesisId else gen
    let gen := if net = testnetName ∧ gen = [] then testnetGenesisId else gen
    let gen := if net = mainnetName ∧ gen = [] then mainnetGenesisId else gen
    return (net, gen)

/-- The hexadecimal text of a root. -/
def RootArg.hex : RootArg → PyStr
  | .bytes b => (Signal402.hex b).map fun x => ⟨x.toNat, by have := x.toNat_lt; omega⟩
  | .text s => s

/-- The row that the arguments ask for. -/
def checkArgs (a : ConfirmArgs) : Except PyError ConfirmedRow := do
  if a.treeSize < 1 then conflict "invalid tree size"
  else
    let root := a.root.hex
    if root.length ≠ 64 then conflict "invalid root"
    else
      let txid := a.txid.strip
      if !looksLikeTxid txid then conflict "invalid txid"
      else if a.confirmedRound < 1 then conflict "invalid confirmed_round"
      else
        let (network, genesisId) ← normalizeConfirmedNetwork a.network a.genesisId a.origin
        return {
          treeSize := a.treeSize
          origin := a.origin
          root := root
          txid := txid
          confirmedRound := a.confirmedRound
          at' := a.at'
          network := network
          genesisId := genesisId }

/-! ## The save -/

/-- The pointer to a row. -/
def ConfirmedRow.pointer (row : ConfirmedRow) : Checkpoint where
  size := row.treeSize
  at' := row.at'
  txid := row.txid
  round := row.confirmedRound
  root := row.root
  origin := row.origin
  network := row.network
  genesisId := row.genesisId

/-- The row with the network and the genesis of another. -/
def ConfirmedRow.withNetwork (want row : ConfirmedRow) : ConfirmedRow :=
  { row with network := want.network, genesisId := want.genesisId }

/-- `UPDATE confirmed_anchors SET network, genesis_id`. -/
def updateNetwork (want : ConfirmedRow) (c : ConfirmedStore) : ConfirmedStore :=
  { c with rows := Table.update ConfirmedRow.treeSize want.treeSize want.withNetwork c.rows }

def insertRow (want : ConfirmedRow) (c : ConfirmedStore) : ConfirmedStore :=
  { c with rows := c.rows ++ [want] }

def setPointer (p : Checkpoint) (c : ConfirmedStore) : ConfirmedStore := { c with pointer := some p }

/-- A save of the size that is confirmed last: idempotent, or a back-fill of the
network. -/
def resaveLast (last : Checkpoint) (want : ConfirmedRow) : Eff ConfirmedStore Checkpoint := do
  let sameCore : Prop := last.origin = want.origin ∧ last.root = want.root ∧
    last.txid = want.txid ∧ last.round = want.confirmedRound
  if sameCore ∧ last.network = want.network ∧ last.genesisId = want.genesisId then return last
  else if sameCore ∧ (last.network = [] ∧ last.genesisId = []) ∧
      (want.network ≠ [] ∨ want.genesisId ≠ []) then
    .modifies (updateNetwork want)
    .modifies (setPointer { last with network := want.network, genesisId := want.genesisId })
    .reads ConfirmedStore.lastConfirmedCheckpoint
  else .ofExcept (conflict "confirmed checkpoint conflict")

/-- A save of a size that has a row but is not confirmed last. -/
def resaveRow (existing want : ConfirmedRow) : Eff ConfirmedStore Checkpoint := do
  let sameCore : Prop := existing.origin = want.origin ∧ existing.root = want.root ∧
    existing.txid = want.txid ∧ existing.confirmedRound = want.confirmedRound
  if sameCore ∧ existing.network = want.network ∧ existing.genesisId = want.genesisId then
    .reads ConfirmedStore.lastConfirmedCheckpoint
  else if sameCore ∧ (existing.network = [] ∧ existing.genesisId = []) ∧
      (want.network ≠ [] ∨ want.genesisId ≠ []) then
    .modifies (updateNetwork want)
    .modifies (setPointer want.pointer)
    .reads ConfirmedStore.lastConfirmedCheckpoint
  else .ofExcept (conflict "confirmed checkpoint conflict")

/-- Origin and root must be those of the authorized row, if there is one. -/
def checkAuthorized (auth : Option AuthorizedRow) (want : ConfirmedRow) : Except PyError Unit :=
  match auth with
  | none => .ok ()
  | some auth =>
      if auth.origin ≠ [] ∧ want.origin ≠ [] ∧ auth.origin ≠ want.origin then
        conflict "origin mismatch"
      else if auth.root ≠ [] ∧ want.root ≠ [] ∧ auth.root ≠ want.root then
        conflict "root mismatch"
      else .ok ()

/-- Persist CONFIRMED only, beside the authorized rows of `anchors`. -/
def saveConfirmedCheckpoint (anchors : Store) (a : ConfirmArgs) :
    Eff ConfirmedStore Checkpoint := do
  let want ← .ofExcept (checkArgs a)
  let last ← .reads ConfirmedStore.lastConfirmedCheckpoint
  if last.size ≠ 0 ∧ want.treeSize < last.size then
    .ofExcept (conflict "size not monotonic")
  else if last.size ≠ 0 ∧ want.treeSize = last.size then resaveLast last want
  else
    match ← .reads fun c => c.row want.treeSize with
    | some existing => resaveRow existing want
    | none =>
        .ofExcept (checkAuthorized (anchors.authorizedRow want.treeSize) want)
        .modifies (insertRow want)
        .modifies (setPointer want.pointer)
        .reads ConfirmedStore.lastConfirmedCheckpoint

/-! ## The invariant -/

/-- The pointer is the row with the largest tree size. -/
structure Agrees (c : ConfirmedStore) : Prop where
  unique : Table.Unique ConfirmedRow.treeSize c.rows
  pointed : (c.rows = [] ∧ c.pointer = none) ∨
    ∃ row ∈ c.rows, c.pointer = some row.pointer ∧ 1 ≤ row.treeSize ∧
      ∀ row' ∈ c.rows, row'.treeSize ≤ row.treeSize

/-- What of a stored row stays: all but the network, which is filled in once. -/
structure Kept (row row' : ConfirmedRow) : Prop where
  treeSize : row'.treeSize = row.treeSize
  origin : row'.origin = row.origin
  root : row'.root = row.root
  txid : row'.txid = row.txid
  confirmedRound : row'.confirmedRound = row.confirmedRound
  network : (row'.network = row.network ∧ row'.genesisId = row.genesisId) ∨
    (row.network = [] ∧ row.genesisId = [] ∧ row'.network ≠ [] ∧ row'.genesisId ≠ [])

theorem Kept.refl (row : ConfirmedRow) : Kept row row :=
  ⟨rfl, rfl, rfl, rfl, rfl, Or.inl ⟨rfl, rfl⟩⟩

theorem Kept.trans {row row' row'' : ConfirmedRow} (h : Kept row row') (h' : Kept row' row'') :
    Kept row row'' where
  treeSize := h'.treeSize.trans h.treeSize
  origin := h'.origin.trans h.origin
  root := h'.root.trans h.root
  txid := h'.txid.trans h.txid
  confirmedRound := h'.confirmedRound.trans h.confirmedRound
  network := by
    rcases h.network with ⟨hnet, hgen⟩ | ⟨hnet, hgen, hnet', hgen'⟩
    · rw [← hnet, ← hgen]
      exact h'.network
    · rcases h'.network with ⟨hsame, hsame'⟩ | ⟨hempty, -⟩
      · rw [← hsame] at hnet'
        rw [← hsame'] at hgen'
        exact Or.inr ⟨hnet, hgen, hnet', hgen'⟩
      · exact absurd hempty hnet'

/-! ## The network of a row -/

/-- A genesis names a network, which is one of the two that have a name. -/
theorem networkOfGenesis_ok {net gen net' : PyStr} (h : networkOfGenesis net gen = .ok net')
    (hnet : net = [] ∨ net = testnetName ∨ net = mainnetName) :
    (net' = [] ∧ gen = []) ∨ net' = testnetName ∨ net' = mainnetName := by
  rw [networkOfGenesis] at h
  split at h
  next hgen =>
    cases h
    exact hnet.imp_left fun hnet => ⟨hnet, hgen⟩
  · split at h
    · cases h
    next name hname =>
      split at h
      · cases h
      · cases h
        split
        · right
          rw [networkForGenesisId] at hname
          split at hname
          · exact Or.inl (Option.some.inj hname).symm
          · split at hname
            · exact Or.inr (Option.some.inj hname).symm
            · cases hname
        next hne => exact hnet.resolve_left hne |> Or.inr

/-- A network is recorded together with its genesis, or neither is. -/
theorem normalizeConfirmedNetwork_ok {network genesisId origin' net gen : PyStr}
    (h : normalizeConfirmedNetwork network genesisId origin' = .ok (net, gen)) :
    net = [] ↔ gen = [] := by
  have htestnet : testnetName ≠ [] ∧ testnetGenesisId ≠ [] := by decide
  have hmainnet : mainnetName ≠ [] ∧ mainnetGenesisId ≠ [] ∧ mainnetName ≠ testnetName := by
    decide
  rw [normalizeConfirmedNetwork] at h
  dsimp only at h
  split at h
  · cases h
  next hknown =>
    cases hgenesis : networkOfGenesis network.strip.lower genesisId.strip with
    | error e => rw [hgenesis] at h; cases h
    | ok net' =>
        rw [hgenesis] at h
        cases h
        have hnet : network.strip.lower = [] ∨ network.strip.lower = testnetName ∨
            network.strip.lower = mainnetName :=
          or_iff_not_imp_left.mpr fun hne => not_not.mp fun hunknown => hknown ⟨hne, hunknown⟩
        rcases networkOfGenesis_ok hgenesis hnet with ⟨rfl, hgen⟩ | rfl | rfl
        · by_cases horigin : origin' = origin
          · simp [hgen, horigin, htestnet]
          · simp [hgen, horigin, htestnet.1.symm, hmainnet.1.symm]
        · by_cases hgen : genesisId.strip = []
          · simp [hgen, htestnet]
          · simp [hgen, htestnet]
        · by_cases hgen : genesisId.strip = []
          · simp [hgen, hmainnet]
          · simp [hgen, hmainnet]

theorem checkArgs_ok {a : ConfirmArgs} {want : ConfirmedRow} (h : checkArgs a = .ok want) :
    1 ≤ want.treeSize ∧ (want.network = [] ↔ want.genesisId = []) := by
  rw [checkArgs] at h
  dsimp only at h
  split at h
  · cases h
  next hsize =>
    split at h
    · cases h
    · split at h
      · cases h
      · split at h
        · cases h
        · cases hnetwork : normalizeConfirmedNetwork a.network a.genesisId a.origin with
          | error e => rw [hnetwork] at h; cases h
          | ok pair =>
              rw [hnetwork] at h
              cases h
              exact ⟨Int.not_lt.mp hsize, normalizeConfirmedNetwork_ok hnetwork⟩

/-! ## What a save does -/

section Saves

variable {c c' : ConfirmedStore} {r : Except PyError Checkpoint}

/-- What a save that returned did to a store whose pointer agrees with its rows. -/
inductive Saved (c : ConfirmedStore) : ConfirmedStore → Prop
  | same : Saved c c
  | filled {row want : ConfirmedRow} (hrow : row ∈ c.rows) (hpointer : c.pointer = some row.pointer)
      (hsize : want.treeSize = row.treeSize) (hempty : row.network = [] ∧ row.genesisId = [])
      (hfull : want.network ≠ [] ∧ want.genesisId ≠ []) :
      Saved c (setPointer
        { row.pointer with network := want.network, genesisId := want.genesisId }
        (updateNetwork want c))
  | inserted {want : ConfirmedRow} (hsize : 1 ≤ want.treeSize)
      (hnew : ∀ row ∈ c.rows, row.treeSize < want.treeSize) :
      Saved c (setPointer want.pointer (insertRow want c))

/-- The call raised and changed nothing, or returned. -/
abbrev SaveOutcome (c : ConfirmedStore) (r : Except PyError Checkpoint) (c' : ConfirmedStore) :
    Prop :=
  ((∃ e, r = .error e) ∧ c' = c) ∨ ((∃ p, r = .ok p) ∧ Saved c c')

theorem outcome_resaveLast {row want : ConfirmedRow} (hrow : row ∈ c.rows)
    (hpointer : c.pointer = some row.pointer) (hsize : want.treeSize = row.treeSize)
    (hnetwork : want.network = [] ↔ want.genesisId = [])
    (h : exec (resaveLast row.pointer want) c = (r, c')) : SaveOutcome c r c' := by
  rw [resaveLast] at h
  split at h
  · cases h
    exact Or.inr ⟨⟨_, rfl⟩, .same⟩
  · split at h
    next hfill =>
      cases h
      refine Or.inr ⟨⟨_, rfl⟩, .filled hrow hpointer hsize hfill.2.1 ?_⟩
      rcases hfill.2.2 with hnet | hgen
      · exact ⟨hnet, fun hgen => hnet (hnetwork.mpr hgen)⟩
      · exact ⟨fun hnet => hgen (hnetwork.mp hnet), hgen⟩
    · cases h
      exact Or.inl ⟨⟨_, rfl⟩, rfl⟩

/-- A save of a size above all rows. -/
theorem outcome_insert {auth : Option AuthorizedRow} {want : ConfirmedRow}
    (hsize : 1 ≤ want.treeSize) (hnew : ∀ row ∈ c.rows, row.treeSize < want.treeSize)
    (h : exec (do
      .ofExcept (checkAuthorized auth want)
      .modifies (insertRow want)
      .modifies (setPointer want.pointer)
      .reads ConfirmedStore.lastConfirmedCheckpoint : Eff ConfirmedStore Checkpoint) c = (r, c')) :
    SaveOutcome c r c' := by
  rw [Eff.exec_bind, Eff.exec_ofExcept] at h
  cases hauth : checkAuthorized auth want with
  | error e =>
      rw [hauth] at h
      cases h
      exact Or.inl ⟨⟨e, rfl⟩, rfl⟩
  | ok u =>
      rw [hauth] at h
      cases h
      exact Or.inr ⟨⟨_, rfl⟩, .inserted hsize hnew⟩

theorem row_eq_none {size : ℤ} (hnew : ∀ row ∈ c.rows, row.treeSize < size) :
    c.row size = none := by
  rw [ConfirmedStore.row, Table.lookup, List.find?_eq_none]
  intro row hrow
  have := hnew row hrow
  rw [decide_eq_true_eq]
  omega

/-- **What a save does.**  It raises and leaves the rows and the pointer as they are,
or returns having replayed, filled in or inserted. -/
theorem outcome_saveConfirmedCheckpoint {anchors : Store} {a : ConfirmArgs} (hc : Agrees c)
    (h : exec (saveConfirmedCheckpoint anchors a) c = (r, c')) : SaveOutcome c r c' := by
  rw [saveConfirmedCheckpoint, Eff.exec_bind, Eff.exec_ofExcept] at h
  cases hargs : checkArgs a with
  | error e =>
      rw [hargs] at h
      cases h
      exact Or.inl ⟨⟨e, rfl⟩, rfl⟩
  | ok want =>
      obtain ⟨hsize, hnetwork⟩ := checkArgs_ok hargs
      rw [hargs] at h
      dsimp only at h
      rw [Eff.exec_bind, Eff.exec_reads] at h
      dsimp only at h
      rcases hc.pointed with ⟨hrows, hpointer⟩ | ⟨row, hrow, hpointer, hpos, hmax⟩
      · -- the first row
        have hnew : ∀ row ∈ c.rows, row.treeSize < want.treeSize := by
          rw [hrows]
          exact List.forall_mem_nil _
        have hlast : c.lastConfirmedCheckpoint = {} := by
          rw [ConfirmedStore.lastConfirmedCheckpoint, hpointer]
          rfl
        rw [hlast, if_neg fun hlt => hlt.1 rfl, if_neg fun heq => heq.1 rfl, Eff.exec_bind,
          Eff.exec_reads, row_eq_none hnew] at h
        exact outcome_insert hsize hnew h
      · have hlast : c.lastConfirmedCheckpoint = row.pointer := by
          rw [ConfirmedStore.lastConfirmedCheckpoint, hpointer]
          rfl
        have hne : row.pointer.size ≠ 0 := by
          change row.treeSize ≠ 0
          omega
        rw [hlast] at h
        by_cases hlt : want.treeSize < row.treeSize
        · rw [if_pos ⟨hne, hlt⟩] at h
          cases h
          exact Or.inl ⟨⟨_, rfl⟩, rfl⟩
        · rw [if_neg fun hlt' => hlt hlt'.2] at h
          by_cases heq : want.treeSize = row.treeSize
          · rw [if_pos ⟨hne, heq⟩] at h
            exact outcome_resaveLast hrow hpointer heq hnetwork h
          · have hnew : ∀ row ∈ c.rows, row.treeSize < want.treeSize := by
              intro row' hrow'
              have := hmax row' hrow'
              omega
            rw [if_neg fun heq' => heq heq'.2, Eff.exec_bind, Eff.exec_reads,
              row_eq_none hnew] at h
            exact outcome_insert hsize hnew h

/-! ## What a save keeps -/

/-- Every row of the first store is kept in the second, and the pointer does not go
back. -/
structure Extends (c c' : ConfirmedStore) : Prop where
  rows : ∀ n row, c.row n = some row → ∃ row', c'.row n = some row' ∧ Kept row row'
  size : c.lastConfirmedCheckpoint.size ≤ c'.lastConfirmedCheckpoint.size

theorem Extends.refl (c : ConfirmedStore) : Extends c c :=
  ⟨fun _ row hrow => ⟨row, hrow, Kept.refl row⟩, Int.le_refl _⟩

theorem Extends.trans {c'' : ConfirmedStore} (h : Extends c c') (h' : Extends c' c'') :
    Extends c c'' where
  rows n row hrow := by
    obtain ⟨row', hrow', hkept⟩ := h.rows n row hrow
    obtain ⟨row'', hrow'', hkept'⟩ := h'.rows n row' hrow'
    exact ⟨row'', hrow'', hkept.trans hkept'⟩
  size := Int.le_trans h.size h'.size

theorem Agrees.pointed_row (hc : Agrees c) {row : ConfirmedRow}
    (hpointer : c.pointer = some row.pointer) :
    1 ≤ row.treeSize ∧ ∀ row' ∈ c.rows, row'.treeSize ≤ row.treeSize := by
  rcases hc.pointed with ⟨-, hnone⟩ | ⟨row₁, -, hpointer₁, hpos, hmax⟩
  · rw [hnone] at hpointer
    cases hpointer
  · rw [hpointer₁] at hpointer
    have hsize : row₁.treeSize = row.treeSize := congrArg Checkpoint.size (Option.some.inj hpointer)
    rw [← hsize]
    exact ⟨hpos, hmax⟩

theorem Saved.agrees (h : Saved c c') (hc : Agrees c) : Agrees c' := by
  cases h with
  | same => exact hc
  | @filled row want hrow hpointer hsize hempty hfull =>
      refine ⟨hc.unique.update fun row => rfl, Or.inr ⟨want.withNetwork row, ?_, rfl,
        (hc.pointed_row hpointer).1, ?_⟩⟩
      · -- the row the pointer names is the one that is filled in
        refine List.mem_map.mpr ⟨row, hrow, ?_⟩
        rw [if_pos hsize.symm]
      · intro row' hrow'
        obtain ⟨row₀, hrow₀, rfl⟩ := List.mem_map.mp hrow'
        have hmax := (hc.pointed_row hpointer).2 row₀ hrow₀
        split
        · exact hmax
        · exact hmax
  | @inserted want hsize hnew =>
      refine ⟨hc.unique.append (row_eq_none hnew), Or.inr ⟨want, ?_, rfl, hsize, ?_⟩⟩
      · exact List.mem_append_right _ List.mem_cons_self
      · intro row hrow
        rcases List.mem_append.mp hrow with hrow | hrow
        · exact Int.le_of_lt (hnew row hrow)
        · exact Int.le_of_eq (congrArg ConfirmedRow.treeSize (List.mem_singleton.mp hrow))

theorem Saved.extends (h : Saved c c') (hc : Agrees c) : Extends c c' := by
  cases h with
  | same => exact Extends.refl c
  | @filled row want hrow hpointer hsize hempty hfull =>
      constructor
      · intro n row₀ hrow₀
        change ∃ row', Table.lookup _ (Table.update _ _ _ _) n = some row' ∧ Kept row₀ row'
        rw [Table.lookup_update (f := want.withNetwork) fun row => rfl]
        by_cases hn : n = want.treeSize
        · have hfound : c.row want.treeSize = some row := hsize ▸ hc.unique.lookup_of_mem hrow
          subst hn
          rw [hfound] at hrow₀
          cases hrow₀
          rw [if_pos rfl, show Table.lookup _ c.rows _ = some row from hfound]
          exact ⟨_, rfl, ⟨rfl, rfl, rfl, rfl, rfl, Or.inr ⟨hempty.1, hempty.2, hfull⟩⟩⟩
        · rw [if_neg hn]
          exact ⟨row₀, hrow₀, Kept.refl row₀⟩
      · rw [ConfirmedStore.lastConfirmedCheckpoint, hpointer]
        exact Int.le_refl _
  | @inserted want hsize hnew =>
      constructor
      · intro n row hrow
        refine ⟨row, ?_, Kept.refl row⟩
        change Table.lookup _ (c.rows ++ [want]) n = some row
        rw [Table.lookup_append, show Table.lookup _ c.rows n = some row from hrow]
        rfl
      · change c.lastConfirmedCheckpoint.size ≤ want.treeSize
        rw [ConfirmedStore.lastConfirmedCheckpoint]
        rcases hc.pointed with ⟨-, hpointer⟩ | ⟨row, hrow, hpointer, -⟩
        · rw [hpointer]
          exact Int.le_trans (by decide) hsize
        · rw [hpointer]
          exact Int.le_of_lt (hnew row hrow)

/-- Whatever the rows are, a save that returns returns what is confirmed last then, and
its size has not become smaller. -/
theorem last_saveConfirmedCheckpoint (anchors : Store) (a : ConfirmArgs)
    (h : exec (saveConfirmedCheckpoint anchors a) c = (r, c')) :
    ((∃ e, r = .error e) ∧ c' = c) ∨ (r = .ok c'.lastConfirmedCheckpoint ∧
      c.lastConfirmedCheckpoint.size ≤ c'.lastConfirmedCheckpoint.size) := by
  rw [saveConfirmedCheckpoint, Eff.exec_bind, Eff.exec_ofExcept] at h
  cases hargs : checkArgs a with
  | error e =>
      rw [hargs] at h
      cases h
      exact Or.inl ⟨⟨e, rfl⟩, rfl⟩
  | ok want =>
      have hsize := (checkArgs_ok hargs).1
      rw [hargs] at h
      dsimp only at h
      rw [Eff.exec_bind, Eff.exec_reads] at h
      dsimp only at h
      split at h
      · cases h
        exact Or.inl ⟨⟨_, rfl⟩, rfl⟩
      next hmonotonic =>
        split at h
        · rw [resaveLast] at h
          split at h
          · cases h
            exact Or.inr ⟨rfl, Int.le_refl _⟩
          · split at h
            · cases h
              exact Or.inr ⟨rfl, Int.le_refl _⟩
            · cases h
              exact Or.inl ⟨⟨_, rfl⟩, rfl⟩
        · have hwant : c.lastConfirmedCheckpoint.size ≤ want.treeSize := by
            rw [not_and_or, not_not] at hmonotonic
            omega
          rw [Eff.exec_bind, Eff.exec_reads] at h
          dsimp only at h
          split at h
          · rw [resaveRow] at h
            split at h
            · cases h
              exact Or.inr ⟨rfl, Int.le_refl _⟩
            · split at h
              · cases h
                exact Or.inr ⟨rfl, hwant⟩
              · cases h
                exact Or.inl ⟨⟨_, rfl⟩, rfl⟩
          · rw [Eff.exec_bind, Eff.exec_ofExcept] at h
            cases hauth : checkAuthorized (anchors.authorizedRow want.treeSize) want with
            | error e =>
                rw [hauth] at h
                cases h
                exact Or.inl ⟨⟨e, rfl⟩, rfl⟩
            | ok u =>
                rw [hauth] at h
                cases h
                exact Or.inr ⟨rfl, hwant⟩

end Saves

/-! ## Runs -/

/-- A call does what its code does beside the authorized rows that it finds, or
fails at its first write. -/
inductive SaveStep (call : Store × ConfirmArgs) (c : ConfirmedStore)
    (r : Except PyError Checkpoint) (c' : ConfirmedStore) : Prop
  | ran (h : exec (saveConfirmedCheckpoint call.1 call.2) c = (r, c'))
  | failed {e : PyError} (hresult : r = .error e) (hafter : c' = c)

/-- A store without confirmed anchors. -/
def emptyStore : ConfirmedStore := ⟨[], none⟩

theorem agrees_empty : Agrees emptyStore := ⟨List.nodup_nil, Or.inl ⟨rfl, rfl⟩⟩

section Runs

open History

variable {c c' : ConfirmedStore} {r : Except PyError Checkpoint} {call : Store × ConfirmArgs}
  {es es' : List (Event ConfirmedStore (Store × ConfirmArgs) (Except PyError Checkpoint))}

theorem SaveStep.outcome (h : SaveStep call c r c') (hc : Agrees c) : SaveOutcome c r c' := by
  cases h with
  | ran h => exact outcome_saveConfirmedCheckpoint hc h
  | failed hresult hafter => exact Or.inl ⟨⟨_, hresult⟩, hafter⟩

theorem SaveStep.keeps (h : SaveStep call c r c') (hc : Agrees c) : Agrees c' ∧ Extends c c' := by
  rcases h.outcome hc with ⟨-, rfl⟩ | ⟨-, hsaved⟩
  · exact ⟨hc, Extends.refl _⟩
  · exact ⟨hsaved.agrees hc, hsaved.extends hc⟩

/-- `last_confirmed_checkpoint` names the largest confirmed row, or size 0. -/
def NamesLargest (c : ConfirmedStore) : Prop :=
  (c.rows = [] ∧ c.lastConfirmedCheckpoint = {}) ∨
    ∃ row, c.row c.lastConfirmedCheckpoint.size = some row ∧
      c.lastConfirmedCheckpoint = row.pointer ∧ ∀ row' ∈ c.rows, row'.treeSize ≤ row.treeSize

theorem Agrees.namesLargest (hc : Agrees c) : NamesLargest c := by
  rcases hc.pointed with ⟨hrows, hpointer⟩ | ⟨row, hrow, hpointer, -, hmax⟩
  · left
    rw [ConfirmedStore.lastConfirmedCheckpoint, hpointer]
    exact ⟨hrows, rfl⟩
  · right
    have hlast : c.lastConfirmedCheckpoint = row.pointer := by
      rw [ConfirmedStore.lastConfirmedCheckpoint, hpointer]
      rfl
    rw [hlast]
    exact ⟨row, hc.unique.lookup_of_mem hrow, rfl, hmax⟩

/-- **Confirmed anchors.**  After any calls from an empty store the pointer is the
largest confirmed row; from there on, after any further calls, every row is kept and
the pointer has not gone back; and a call that raises changes nothing. -/
theorem confirmed_anchors (h : Run SaveStep emptyStore es c) (h' : Run SaveStep c es' c') :
    NamesLargest c ∧ Extends c c' ∧
      ∀ e ∈ es, (∃ error, e.result = .error error) → e.after = e.before := by
  have hagrees := h.invariant (K := Agrees) (fun _ _ hstep hc => (hstep.keeps hc).1) agrees_empty
  refine ⟨hagrees.namesLargest, ?_, fun e hmem hraised => ?_⟩
  · exact h'.relation (fun hstep hc => hstep.keeps hc) Extends.refl Extends.trans hagrees
  · obtain ⟨hstep, hbefore⟩ := h.forall_event (K := Agrees)
      (fun _ _ hstep hc => (hstep.keeps hc).1) agrees_empty e hmem
    rcases hstep.outcome hbefore with ⟨-, hafter⟩ | ⟨⟨p, hok⟩, -⟩
    · exact hafter
    · obtain ⟨error, hraised⟩ := hraised
      rw [hok] at hraised
      cases hraised

end Runs

/-- A confirmation that names no network. -/
def legacySave : ConfirmArgs where
  treeSize := 1
  origin := "402signal.com/pq/log/mainnet-v1"
  root := .text "6e340b9cffb37a989ca544e6bb780a2c78901d3fb33738768511a30617afa01d"
  txid := "AAAAAAAAAAAAAAAAAAAAAAAAAAAAAAAAAAAAAAAAAAAAAAAAAAAA"
  confirmedRound := 7
  at' := 1000

/-- A save without authorized rows. -/
def saveEvent (a : ConfirmArgs) (c : ConfirmedStore) :
    History.Event ConfirmedStore (Store × ConfirmArgs) (Except PyError Checkpoint) where
  before := c
  call := (⟨[], [], [], 0⟩, a)
  result := (exec (saveConfirmedCheckpoint ⟨[], [], [], 0⟩ a) c).1
  after := (exec (saveConfirmedCheckpoint ⟨[], [], [], 0⟩ a) c).2

def saved (a : ConfirmArgs) (c : ConfirmedStore) : ConfirmedStore := (saveEvent a c).after

theorem run_saved (a : ConfirmArgs) (c : ConfirmedStore) :
    History.Run SaveStep c ([] ++ [saveEvent a c]) (saved a c) :=
  .snoc (History.Run.nil c) (.ran rfl)

/-- The network is filled in by a later save of the same confirmation. -/
theorem confirmed_anchors_run :
    let c := saved legacySave emptyStore
    let c' := saved { legacySave with network := "mainnet" } c
    (c.rows.map ConfirmedRow.network = [[]] ∧ c'.rows.map ConfirmedRow.network = [mainnetName]) ∧
      NamesLargest c ∧ Extends c c' := by
  refine ⟨by decide +kernel, ?_⟩
  have h := confirmed_anchors (run_saved legacySave emptyStore)
    (run_saved { legacySave with network := "mainnet" } _)
  exact ⟨h.1, h.2.1⟩

end Signal402.Confirmed
