import Signal402.Base.Interp
import Mathlib.Data.List.Sort
import Mathlib.Algebra.Order.Group.Int
import Mathlib.Algebra.Order.Group.Unbundled.Abs
import Mathlib.Data.List.Lex

/-!
# The history boost (`probe.py`)

`_history_boost_shortlist`: the first candidates of a ranked list in two groups, those of the
preferred network in front, each of them sorted by the need score, cut into clusters of close
scores, and sorted inside each cluster by what the history says.

A cluster is closed by the first score that is not close to its head, and the scores go down,
so that a cluster lies behind everything of a higher score that is not close.
-/

namespace Signal402.HistoryBoost

/-! ## The source -/

/-- `HISTORY_CLOSE_SCORE`. -/
def historyCloseScore : ℤ := 20

def historyFreshStrongS : ℤ := 5 * 60

def historyFreshUsefulS : ℤ := 60 * 60

def historyFreshWeakS : ℤ := 24 * 60 * 60

def standardProbeCap : ℕ := 7

def firstTranche : ℕ := 3

/-- 0 older/none, 1 <24h weak, 2 <1h useful, 3 <5m strong. -/
def successFreshnessBand (lastSuccess402 : Option ℤ) (now : ℤ) : ℤ :=
  match lastSuccess402 with
  | none => 0
  | some ts =>
      let age := if now - ts < 0 then 0 else now - ts
      if age < historyFreshStrongS then 3
      else if age < historyFreshUsefulS then 2
      else if age < historyFreshWeakS then 1
      else 0

def preferNetworks : List PyStr := ["base", "solana", "algorand"]

def normalizePreferNetwork (py : Interp) : Json → Option PyStr
  | .str raw => preferNetworks.find? fun val => val = py.uni.lower raw.strip
  | _ => none

/-- What `rank_hints` returns for a URL. -/
structure Hint where
  lastSuccess402 : Option ℤ
  n7d : ℤ

/-- What is read of a candidate.  The candidates were ranked by the same functions before, so
that they raise nothing here. -/
structure Reads (Item : Type) where
  resourceUrl : Item → PyStr
  itemRail : Item → PyStr
  scoreNeed : PyStr → Item → ℤ

variable {Item : Type}

/-- An entry of `meta`. -/
structure Row (Item : Type) where
  idx : ℕ
  item : Item
  score : ℤ
  preferHit : Bool
  fresh : ℤ
  mature : ℤ
  weak : ℤ
  n7d : ℤ

/-- `score_need(need, item) if need else 0`. -/
def needScore (reads : Reads Item) (need : PyStr) (item : Item) : ℤ :=
  if need = [] then 0 else reads.scoreNeed need item

/-- `prefer and rail == prefer`. -/
def prefers (reads : Reads Item) (prefer : Option PyStr) (item : Item) : Bool :=
  prefer = some (reads.itemRail item)

def metaRow (reads : Reads Item) (need : PyStr) (prefer : Option PyStr)
    (hints : List (PyStr × Hint)) (now : ℤ) (idx : ℕ) (item : Item) : Row Item :=
  let hint := (hints.find? fun m => m.1 = reads.resourceUrl item).map Prod.snd
  let n7d := (hint.map Hint.n7d).getD 0
  { idx
    item
    score := needScore reads need item
    preferHit := prefers reads prefer item
    fresh := successFreshnessBand (hint.bind Hint.lastSuccess402) now
    mature := if 10 ≤ n7d then 1 else 0
    weak := if 3 ≤ n7d then 1 else 0
    n7d }

/-- `(-row["score"], row["idx"])`. -/
def scoreKey (row : Row Item) : List ℤ := [-row.score, row.idx]

/-- The key of the sort inside a cluster, which is in descending order. -/
def historyKey (row : Row Item) : List ℤ :=
  [row.fresh, row.mature, row.weak, if row.mature ≠ 0 ∨ row.weak ≠ 0 then row.n7d else 0, -row.idx]

/-- The loop that cuts a group into clusters, with the score at the head of the last one. -/
def clusters (headScore : ℤ) (current : List (Row Item)) : List (Row Item) → List (List (Row Item))
  | [] => [current]
  | row :: rest =>
      if |headScore - row.score| < historyCloseScore then clusters headScore (current ++ [row]) rest
      else current :: clusters row.score [row] rest

/-- `cluster.sort(key=…, reverse=True)`. -/
def sortCluster (cluster : List (Row Item)) : List (Row Item) :=
  cluster.insertionSort fun a b => historyKey b ≤ historyKey a

def reorderGroup (group : List (Row Item)) : List (Row Item) :=
  match group.insertionSort fun a b => scoreKey a ≤ scoreKey b with
  | [] => []
  | row :: rest => (clusters row.score [row] rest).flatMap sortCluster

/-- How many candidates may move. -/
def boostWindow (ranked : List Item) : ℕ :=
  min ranked.length (max (standardProbeCap * 2) (firstTranche * 2))

/-- `_history_boost_shortlist`; `rankHints` is the lookup in the history. -/
def historyBoostShortlist (py : Interp) (reads : Reads Item)
    (rankHints : List PyStr → Except PyError (List (PyStr × Hint))) (now : ℤ)
    (ranked : List Item) (need : PyStr) (preferNetwork : Json) : List Item :=
  if ranked.length ≤ 1 then ranked
  else
    let head := ranked.take (boostWindow ranked)
    let tail := ranked.drop (boostWindow ranked)
    match rankHints (head.map reads.resourceUrl) with
    | .error _ => ranked
    | .ok [] => ranked
    | .ok (hint :: hints) =>
        let prefer := normalizePreferNetwork py preferNetwork
        let rows := head.mapIdx (metaRow reads need prefer (hint :: hints) now)
        let preferred := rows.filter fun row => row.preferHit
        let other := rows.filter fun row => !row.preferHit
        (reorderGroup preferred ++ reorderGroup other).map Row.item ++ tail

/-! ## Clusters of a falling list -/

/-- No row stands before one of a score that is higher by what is not close. -/
def Close (rows : List (Row Item)) : Prop :=
  rows.Pairwise fun a b => b.score < a.score + historyCloseScore

theorem sortCluster_perm (cluster : List (Row Item)) : (sortCluster cluster).Perm cluster :=
  List.perm_insertionSort _ _

theorem flatMap_sortCluster_perm (cs : List (List (Row Item))) :
    (cs.flatMap sortCluster).Perm cs.flatten := by
  induction cs with
  | nil => exact List.Perm.refl _
  | cons c cs ih =>
      rw [List.flatMap_cons, List.flatten_cons]
      exact (sortCluster_perm c).append ih

theorem clusters_flatten (headScore : ℤ) (current rows : List (Row Item)) :
    (clusters headScore current rows).flatten = current ++ rows := by
  induction rows generalizing headScore current with
  | nil => simp [clusters]
  | cons row rest ih =>
      rw [clusters]
      split
      · rw [ih, List.append_assoc, List.singleton_append]
      · rw [List.flatten_cons, ih, List.singleton_append]

/-- The rows of one cluster are close to its head, in whichever order they stand. -/
theorem close_of_head {headScore : ℤ} {rows : List (Row Item)}
    (h : ∀ row ∈ rows, row.score ≤ headScore ∧ headScore < row.score + historyCloseScore) :
    Close rows := by
  apply List.pairwise_of_forall_mem_list
  intro a ha b hb
  calc b.score ≤ headScore := (h b hb).1
    _ < a.score + historyCloseScore := (h a ha).2

/-- The clusters of falling scores: each is close in itself, and those behind it have no
higher scores. -/
theorem close_clusters {headScore : ℤ} {current rows : List (Row Item)}
    (hcurrent : ∀ row ∈ current,
      row.score ≤ headScore ∧ headScore < row.score + historyCloseScore)
    (hrows : rows.Pairwise fun a b => b.score ≤ a.score)
    (hbehind : ∀ a ∈ current, ∀ b ∈ rows, b.score ≤ a.score)
    (hhead : ∀ b ∈ rows, b.score ≤ headScore) :
    Close ((clusters headScore current rows).flatMap sortCluster) := by
  have hcluster : ∀ {headScore : ℤ} {cluster : List (Row Item)}, (∀ row ∈ cluster,
      row.score ≤ headScore ∧ headScore < row.score + historyCloseScore) →
        Close (sortCluster cluster) := by
    intro headScore cluster h
    apply close_of_head
    intro row hrow
    exact h row ((sortCluster_perm cluster).mem_iff.mp hrow)
  induction rows generalizing headScore current with
  | nil =>
      rw [clusters, List.flatMap_singleton]
      exact hcluster hcurrent
  | cons row rest ih =>
      obtain ⟨hfall, hrest⟩ := List.pairwise_cons.mp hrows
      have hrow := hhead row List.mem_cons_self
      rw [clusters]
      split
      · rename_i hclose
        rw [abs_lt] at hclose
        apply ih
        · intro a ha
          rcases List.mem_append.mp ha with ha | ha
          · exact hcurrent a ha
          · obtain rfl := List.mem_singleton.mp ha
            exact ⟨hrow, by omega⟩
        · exact hrest
        · intro a ha b hb
          rcases List.mem_append.mp ha with ha | ha
          · exact hbehind a ha b (List.mem_cons_of_mem _ hb)
          · obtain rfl := List.mem_singleton.mp ha
            exact hfall b hb
        · exact fun b hb => hhead b (List.mem_cons_of_mem _ hb)
      · have hnew : Close ((clusters row.score [row] rest).flatMap sortCluster) := by
          apply ih
          · intro a ha
            obtain rfl := List.mem_singleton.mp ha
            exact ⟨le_rfl, by rw [historyCloseScore]; omega⟩
          · exact hrest
          · intro a ha b hb
            obtain rfl := List.mem_singleton.mp ha
            exact hfall b hb
          · exact hfall
        rw [List.flatMap_cons]
        refine List.pairwise_append.mpr ⟨hcluster hcurrent, hnew, ?_⟩
        intro a ha b hb
        have ha : a ∈ current := (sortCluster_perm current).mem_iff.mp ha
        have hb : b ∈ row :: rest := by
          have hmem := (flatMap_sortCluster_perm _).mem_iff.mp hb
          rwa [clusters_flatten, List.singleton_append] at hmem
        have hle := hbehind a ha b hb
        rw [historyCloseScore]
        omega

/-! ## Groups -/

theorem reorderGroup_perm (group : List (Row Item)) : (reorderGroup group).Perm group := by
  have hsort := List.perm_insertionSort (fun a b : Row Item => scoreKey a ≤ scoreKey b) group
  rw [reorderGroup]
  split
  · rename_i hnil
    rw [hnil] at hsort
    exact hsort
  · rename_i row rest hcons
    rw [hcons] at hsort
    have hflat := flatMap_sortCluster_perm (clusters row.score [row] rest)
    rw [clusters_flatten] at hflat
    exact hflat.trans hsort

/-- The sort by `(-score, idx)` puts the scores in falling order. -/
theorem score_le_of_scoreKey {a b : Row Item} (h : scoreKey a ≤ scoreKey b) :
    b.score ≤ a.score := by
  by_contra hlt
  have hkey : scoreKey b < scoreKey a := List.Lex.rel (by omega)
  exact absurd hkey (not_lt.mpr h)

theorem close_reorderGroup (group : List (Row Item)) : Close (reorderGroup group) := by
  have htotal : Std.Total fun a b : Row Item => scoreKey a ≤ scoreKey b :=
    ⟨fun a b => le_total (scoreKey a) (scoreKey b)⟩
  have htrans : IsTrans (Row Item) fun a b => scoreKey a ≤ scoreKey b :=
    ⟨fun a b c hab hbc => le_trans hab hbc⟩
  have hsorted := List.pairwise_insertionSort (fun a b : Row Item => scoreKey a ≤ scoreKey b) group
  have hfall := hsorted.imp fun h => score_le_of_scoreKey h
  rw [reorderGroup]
  split
  · exact List.Pairwise.nil
  · rename_i row rest hcons
    rw [hcons] at hfall
    obtain ⟨hhead, hrest⟩ := List.pairwise_cons.mp hfall
    apply close_clusters _ hrest _ hhead
    · intro a ha
      obtain rfl := List.mem_singleton.mp ha
      exact ⟨le_rfl, by rw [historyCloseScore]; omega⟩
    · intro a ha b hb
      obtain rfl := List.mem_singleton.mp ha
      exact hhead b hb

/-! ## The shortlist -/

section Shortlist

variable {py : Interp} {reads : Reads Item}
  {rankHints : List PyStr → Except PyError (List (PyStr × Hint))} {now : ℤ} {ranked : List Item}
  {need : PyStr} {preferNetwork : Json}

theorem boostWindow_le (ranked : List Item) : boostWindow ranked ≤ ranked.length := by
  rw [boostWindow]
  exact min_le_left _ _

/-- The rows of a window stand for its candidates. -/
theorem map_metaRow (reads : Reads Item) (need : PyStr) (prefer : Option PyStr)
    (hints : List (PyStr × Hint)) (now : ℤ) (head : List Item) :
    (head.mapIdx (metaRow reads need prefer hints now)).map Row.item = head ∧
      ∀ row ∈ head.mapIdx (metaRow reads need prefer hints now),
        row.score = needScore reads need row.item ∧
          row.preferHit = prefers reads prefer row.item := by
  constructor
  · rw [List.mapIdx_eq_zipIdx_map, List.map_map]
    exact List.zipIdx_map_fst 0 head
  · intro row hrow
    obtain ⟨i, hi, rfl⟩ := List.mem_mapIdx.mp hrow
    exact ⟨rfl, rfl⟩

/-- What is made of a group: its candidates, with close scores. -/
theorem reorderGroup_items {group : List (Row Item)}
    (hscore : ∀ row ∈ group, row.score = needScore reads need row.item) :
    ((reorderGroup group).map Row.item).Pairwise fun a b =>
      needScore reads need b < needScore reads need a + historyCloseScore := by
  rw [List.pairwise_map]
  apply (close_reorderGroup group).imp_of_mem
  intro a b ha hb hclose
  rw [← hscore a ((reorderGroup_perm group).mem_iff.mp ha),
    ← hscore b ((reorderGroup_perm group).mem_iff.mp hb)]
  exact hclose

variable (py) in
/-- With a hint the shortlist is the window's candidates in two groups, and the rest. -/
theorem shortlist_eq {hints : List (PyStr × Hint)} (hlen : 1 < ranked.length)
    (hhints : rankHints ((ranked.take (boostWindow ranked)).map reads.resourceUrl) = .ok hints)
    (hne : hints ≠ []) :
    ∃ preferred other, historyBoostShortlist py reads rankHints now ranked need preferNetwork =
        preferred ++ other ++ ranked.drop (boostWindow ranked) ∧
      (preferred ++ other).Perm (ranked.take (boostWindow ranked)) ∧
      (∀ item ∈ preferred,
        prefers reads (normalizePreferNetwork py preferNetwork) item = true) ∧
      (∀ item ∈ other, prefers reads (normalizePreferNetwork py preferNetwork) item = false) ∧
      (preferred.Pairwise fun a b =>
        needScore reads need b < needScore reads need a + historyCloseScore) ∧
      other.Pairwise fun a b =>
        needScore reads need b < needScore reads need a + historyCloseScore := by
  obtain ⟨hint, hints, rfl⟩ := List.exists_cons_of_ne_nil hne
  obtain ⟨hitems, hrows⟩ := map_metaRow reads need (normalizePreferNetwork py preferNetwork)
    (hint :: hints) now (ranked.take (boostWindow ranked))
  rw [historyBoostShortlist, if_neg (not_le.mpr hlen)]
  dsimp only
  rw [hhints]
  dsimp only
  generalize (ranked.take (boostWindow ranked)).mapIdx (metaRow reads need
    (normalizePreferNetwork py preferNetwork) (hint :: hints) now) = rows at hitems hrows
  refine ⟨(reorderGroup (rows.filter fun row => row.preferHit)).map Row.item,
    (reorderGroup (rows.filter fun row => !row.preferHit)).map Row.item, ?_, ?_, ?_, ?_, ?_, ?_⟩
  · rw [← List.map_append]
  · rw [← List.map_append, ← hitems]
    apply List.Perm.map
    have hgroups := (reorderGroup_perm (rows.filter fun row => row.preferHit)).append
      (reorderGroup_perm (rows.filter fun row => !row.preferHit))
    exact hgroups.trans (List.filter_append_perm _ rows)
  · intro item hitem
    obtain ⟨row, hrow, rfl⟩ := List.mem_map.mp hitem
    obtain ⟨hrow, hhit⟩ := List.mem_filter.mp ((reorderGroup_perm _).mem_iff.mp hrow)
    rw [← (hrows row hrow).2]
    exact hhit
  · intro item hitem
    obtain ⟨row, hrow, rfl⟩ := List.mem_map.mp hitem
    obtain ⟨hrow, hhit⟩ := List.mem_filter.mp ((reorderGroup_perm _).mem_iff.mp hrow)
    rw [← (hrows row hrow).2]
    simpa using hhit
  · exact reorderGroup_items fun row hrow => (hrows row (List.mem_of_mem_filter hrow)).1
  · exact reorderGroup_items fun row hrow => (hrows row (List.mem_of_mem_filter hrow)).1

variable (py reads rankHints now ranked need preferNetwork)

/-- The shortlist is the list in another order, and behind the window in the same order.
With a hint the candidates of the preferred network are in front in the window, and in both
groups none stands before one whose need score is higher by 20 or more. -/
theorem history_reorders_close :
    (historyBoostShortlist py reads rankHints now ranked need preferNetwork).Perm ranked ∧
    (historyBoostShortlist py reads rankHints now ranked need preferNetwork).drop
        (boostWindow ranked) = ranked.drop (boostWindow ranked) ∧
    ∀ hints, 1 < ranked.length →
      rankHints ((ranked.take (boostWindow ranked)).map reads.resourceUrl) = .ok hints →
      hints ≠ [] → ∃ preferred other,
        (historyBoostShortlist py reads rankHints now ranked need preferNetwork).take
            (boostWindow ranked) = preferred ++ other ∧
        (∀ item ∈ preferred,
          prefers reads (normalizePreferNetwork py preferNetwork) item = true) ∧
        (∀ item ∈ other,
          prefers reads (normalizePreferNetwork py preferNetwork) item = false) ∧
        (preferred.Pairwise fun a b =>
          needScore reads need b < needScore reads need a + historyCloseScore) ∧
        other.Pairwise fun a b =>
          needScore reads need b < needScore reads need a + historyCloseScore := by
  have htake : (ranked.take (boostWindow ranked)).length = boostWindow ranked := by
    rw [List.length_take, min_eq_left (boostWindow_le ranked)]
  by_cases hboost : ∃ hints, 1 < ranked.length ∧
      rankHints ((ranked.take (boostWindow ranked)).map reads.resourceUrl) = .ok hints ∧ hints ≠ []
  · obtain ⟨hints, hlen, hhints, hne⟩ := hboost
    obtain ⟨preferred, other, hshort, hperm, hpreferred, hother, hclose, hclose'⟩ :=
      shortlist_eq py hlen hhints hne
    have hwindow : (preferred ++ other).length = boostWindow ranked :=
      hperm.length_eq.trans htake
    rw [hshort]
    refine ⟨?_, List.drop_left' hwindow, fun _ _ _ _ => ⟨preferred, other,
      List.take_left' hwindow, hpreferred, hother, hclose, hclose'⟩⟩
    have hwhole := hperm.append_right (ranked.drop (boostWindow ranked))
    rwa [List.take_append_drop] at hwhole
  · -- without a hint the list is returned as it is
    have hsame : historyBoostShortlist py reads rankHints now ranked need preferNetwork =
        ranked := by
      rw [historyBoostShortlist]
      split
      · rfl
      · rename_i hlen
        dsimp only
        split
        · rfl
        · rfl
        · rename_i hint hints hhints
          exact absurd ⟨_, not_le.mp hlen, hhints, List.cons_ne_nil _ _⟩ hboost
    rw [hsame]
    exact ⟨List.Perm.refl _, rfl, fun hints hlen hhints hne =>
      absurd ⟨hints, hlen, hhints, hne⟩ hboost⟩

/-- Candidates that are their own scores, each with a URL that is its number. -/
def sampleReads : Reads ℤ where
  resourceUrl := intText
  itemRail _ := "base"
  scoreNeed _ n := n

/-- The second of three candidates has a history, and is close to the first. -/
theorem history_reorders_close_sample :
    historyBoostShortlist Interp.plain sampleReads (fun _ => .ok [("85", ⟨none, 12⟩)]) 0
        [100, 85, 70] "weather" .null = [85, 100, 70] ∧
      ∃ preferred other, [85, 100, 70] = preferred ++ other ∧
        (∀ item ∈ preferred, prefers sampleReads none item = true) ∧
        other.Pairwise fun a b => needScore sampleReads "weather" b <
          needScore sampleReads "weather" a + historyCloseScore := by
  have hresult : historyBoostShortlist Interp.plain sampleReads (fun _ => .ok [("85", ⟨none, 12⟩)])
      0 [100, 85, 70] "weather" .null = [85, 100, 70] := by decide
  obtain ⟨preferred, other, htake, hpreferred, -, -, hclose⟩ :=
    (history_reorders_close Interp.plain sampleReads (fun _ => .ok [("85", ⟨none, 12⟩)]) 0
      [100, 85, 70] "weather" .null).2.2 _ (by decide) rfl (by simp)
  rw [hresult] at htake
  exact ⟨hresult, preferred, other, htake, hpreferred, hclose⟩

end Shortlist

end Signal402.HistoryBoost
