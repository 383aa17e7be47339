import Signal402.Lib.Double
import Signal402.Pq.MerkleProofs

/-!
# The Merkle fold of the route guard (`sdk/route-guard/index.mjs`)

The fold at the end of `authenticate`, on IEEE doubles as JavaScript computes it, and its
agreement with `root_from_inclusion` for every size up to the largest safe integer.

* `doubleBelow_isNat` — the loop ends, and finds the split of the Python log.
* `fold_sim` — one fold follows the other, as long as the doubles are the integers.

The doubles are Lean's `Float`, by its model of the binary64 format.  A `while` loop returns
nothing when its fuel is used up.
-/

namespace Signal402.RouteGuard

open Double Sha256

/-! ## The fold -/

/-- A `RouteGuardError`; the message is the code. -/
structure RouteGuardError where
  code : String

def fail {α : Type} (code : String := "invalid_binding") : Except RouteGuardError α :=
  .error ⟨code⟩

/-- The largest integer below which every integer is a double. -/
def maxSafeInteger : ℕ := 2 ^ 53 - 1

def sha (buffers : List Bytes) : Bytes := sha256 buffers.flatten

/-- The loop `while (k * 2 < n) k *= 2`. -/
def doubleBelow (n : Float) : ℕ → Float → Option Float
  | 0, _ => none
  | fuel + 1, k => if k * 2 < n then doubleBelow n fuel (k * 2) else some k

/-- Doubling 1 that often gives infinity, which is below no double. -/
def loopFuel : ℕ := 1025

/-- `fold` of `authenticate`; `path.pop()` takes the last sibling. -/
def fold (leaf : Bytes) (m n : Float) (path : List Bytes) :
    Option (Except RouteGuardError Bytes) :=
  if n == 1 then
    if path.length ≠ 0 then some (fail "invalid_inclusion") else some (.ok leaf)
  else
    (doubleBelow n loopFuel 1).bind fun k =>
      if h : path = [] then some (fail "invalid_inclusion")
      else if m < k then
        (fold leaf m k path.dropLast).map
          (·.map fun left => sha [[0x01], left, path.getLast h])
      else
        (fold leaf (m - k) (n - k) path.dropLast).map
          (·.map fun right => sha [[0x01], path.getLast h, right])
termination_by path.length
decreasing_by
  all_goals
    have hpos := List.length_pos_iff.mpr h
    rw [List.length_dropLast]
    omega

/-- The check that follows the fold: its root is the one of the checkpoint. -/
def checkInclusion (leaf root : Bytes) (index size : Float) (path : List Bytes) :
    Option (Except RouteGuardError Unit) :=
  (fold leaf index size path).map fun folded =>
    folded.bind fun computed => if computed = root then .ok () else fail "invalid_inclusion"

/-! ## The split -/

theorem isNat_one : IsNat 1 1 := by
  have hliteral : (1 : Float) = number 1 := by rfl
  rw [hliteral]
  exact isNat_number (by decide)

theorem isNat_two : IsNat 2 (2 ^ 1) := by
  have hliteral : (2 : Float) = number 2 := by rfl
  rw [hliteral]
  exact isNat_number (by decide)

theorem loopFuel_enough : 53 < loopFuel + 0 := by
  rw [loopFuel]
  decide

/-- Every size the loop runs through is exact. -/
theorem doubleBelow_isNat {x : Float} {n : ℕ} (hx : IsNat x n) (hn : n ≤ maxSafeInteger)
    {fuel j : ℕ} (hj : j ≤ 53) (hfuel : 53 < fuel + j) {k : Float} (hk : IsNat k (2 ^ j)) :
    ∃ y, doubleBelow x fuel k = some y ∧ IsNat y (Merkle.doubleBelow n (2 ^ j)) := by
  induction fuel generalizing j k with
  | zero => omega
  | succ fuel ih =>
      have hshift : 2 ^ j <<< 1 = 2 ^ (j + 1) := by rw [Nat.shiftLeft_eq, pow_one, ← pow_succ]
      have hdouble : IsNat (k * 2) (2 ^ (j + 1)) := by
        apply hk.mul isNat_two
        rw [Nat.log2_two_pow]
        omega
      rw [doubleBelow, Merkle.doubleBelow, hshift]
      by_cases hlt : 2 ^ (j + 1) < n
      · have hj' : j + 1 < 53 := by
          rw [← Nat.pow_lt_pow_iff_right (a := 2) (by omega)]
          have hsafe : n < 2 ^ 53 := Nat.lt_of_le_pred (Nat.two_pow_pos 53) hn
          omega
        rw [if_pos ((hdouble.lt hx).mpr hlt), if_pos ⟨Nat.two_pow_pos j, hlt⟩]
        exact ih (by omega) (by omega) hdouble
      · rw [if_neg (mt (hdouble.lt hx).mp hlt), if_neg (mt And.right hlt)]
        exact ⟨k, rfl, hk⟩

/-! ## The simulation -/

theorem sha_node (left right : Bytes) :
    sha [[0x01], left, right] = Merkle.nodeHash left right := by
  simp [sha, Merkle.nodeHash, Merkle.nodePrefix]

/-- The two folds give the same root, or both reject. -/
def SameFold (js : Option (Except RouteGuardError Bytes)) (py : Except PyError Bytes) : Prop :=
  ∃ result, js = some result ∧ result.toOption = py.toOption

theorem sameFold_reject (code : String) (e : PyError) :
    SameFold (some (fail code)) (.error e) :=
  ⟨fail code, rfl, rfl⟩

/-- What is hashed over equal roots is equal. -/
theorem SameFold.map {js : Option (Except RouteGuardError Bytes)} {py : Except PyError Bytes}
    (h : SameFold js py) {f g : Bytes → Bytes} (hfg : ∀ node, f node = g node) :
    SameFold (js.map (·.map f)) (py.map g) := by
  obtain ⟨result, rfl, heq⟩ := h
  refine ⟨result.map f, rfl, ?_⟩
  obtain rfl : f = g := funext hfg
  cases result with
  | error e =>
      cases py with
      | error e' => rfl
      | ok root => exact absurd heq (by simp [Except.toOption])
  | ok node =>
      cases py with
      | error e' => exact absurd heq (by simp [Except.toOption])
      | ok root =>
          obtain rfl : node = root := Option.some.inj heq
          rfl

/-- One step of the JavaScript fold takes the sibling and the half that one step of the Python
fold takes. -/
theorem fold_sim (leaf : Bytes) {path : List Bytes} (hpath : ∀ sibling ∈ path, sibling.length = 32)
    {x y : Float} {m n : ℕ} (hx : IsNat x m) (hy : IsNat y n) (hmn : m < n)
    (hn : n ≤ maxSafeInteger) :
    SameFold (fold leaf x y path) (Merkle.fold leaf m n path) := by
  induction path using List.reverseRecOn generalizing x y m n with
  | nil =>
      rw [fold, Merkle.fold]
      by_cases hone : n = 1
      · rw [if_pos ((hy.beq isNat_one).mpr hone), if_pos hone]
        exact ⟨.ok leaf, rfl, rfl⟩
      · obtain ⟨k, hk, -⟩ :=
          doubleBelow_isNat hy hn (Nat.zero_le 53) loopFuel_enough isNat_one
        rw [if_neg (mt (hy.beq isNat_one).mp hone), if_neg hone, hk, dif_neg (by omega)]
        exact sameFold_reject ..
  | append_singleton init sibling ih =>
      have hsibling : sibling.length = Merkle.hashSize := hpath sibling (by simp)
      have hinit : ∀ node ∈ init, node.length = 32 := fun node hnode =>
        hpath node (List.mem_append_left _ hnode)
      rw [fold, Merkle.fold]
      by_cases hone : n = 1
      · rw [if_pos ((hy.beq isNat_one).mpr hone), if_pos hone, if_pos (by simp), if_neg (by simp)]
        exact sameFold_reject ..
      · obtain ⟨k, hk, hsplit⟩ :=
          doubleBelow_isNat hy hn (Nat.zero_le 53) loopFuel_enough isNat_one
        rw [pow_zero] at hsplit
        have hlt := Merkle.doubleBelow_one_lt (n := n) (by omega)
        rw [if_neg (mt (hy.beq isNat_one).mp hone), if_neg hone, hk, dif_neg (by omega)]
        simp only [Option.bind_some, List.getLast?_concat, List.getLast_concat,
          List.dropLast_concat, List.append_eq_nil_iff, List.cons_ne_self, and_false, ↓reduceDIte,
          hsibling]
        rw [if_neg (not_not.mpr rfl)]
        -- the JavaScript comparison goes the way of the comparison of the integers
        by_cases hm : m < Merkle.doubleBelow n 1
        · rw [if_pos ((hx.lt hsplit).mpr hm), if_pos hm]
          apply SameFold.map
          · exact ih hinit hx hsplit hm (by omega)
          · intro left
            exact sha_node left sibling
        · rw [if_neg (mt (hx.lt hsplit).mp hm), if_neg hm]
          have hsafe : n < 2 ^ 53 := Nat.lt_of_le_pred (Nat.two_pow_pos 53) hn
          have hrest : IsNat (x - k) (m - Merkle.doubleBelow n 1) :=
            hx.sub hsplit (by omega) (by omega)
          have hwidth : IsNat (y - k) (n - Merkle.doubleBelow n 1) :=
            hy.sub hsplit (by omega) hsafe
          apply SameFold.map
          · exact ih hinit hrest hwidth (by omega) (by omega)
          · intro right
            exact sha_node sibling right

/-- For every size up to the largest safe integer, index below it and path of 32-byte nodes,
the fold over doubles gives the root that `root_from_inclusion` gives, or both reject. -/
theorem fold_rootFromInclusion (leaf : Bytes) {size index : ℕ} (hsize : size ≤ maxSafeInteger)
    (hindex : index < size) {path : List Bytes} (hpath : ∀ node ∈ path, node.length = 32) :
    SameFold (fold leaf (number index) (number size) path)
      (Merkle.rootFromInclusion index size leaf path) := by
  have hsafe : size < 2 ^ 53 := Nat.lt_of_le_pred (Nat.two_pow_pos 53) hsize
  rw [Merkle.rootFromInclusion, if_neg (by omega), Int.toNat_natCast, Int.toNat_natCast]
  exact fold_sim leaf hpath (isNat_number (by omega)) (isNat_number hsafe) hindex hsize

/-- The second of three leaves, with a path of two nodes. -/
theorem fold_rootFromInclusion_three :
    SameFold
      (fold (List.replicate 32 0x07) (number 1) (number 3)
        [List.replicate 32 0x08, List.replicate 32 0x09])
      (Merkle.rootFromInclusion 1 3 (List.replicate 32 0x07)
        [List.replicate 32 0x08, List.replicate 32 0x09]) :=
  @fold_rootFromInclusion (List.replicate 32 0x07) 3 1 (by decide) (by decide) _ (by simp)

/-- The guard accepts the proofs that `verify_inclusion` accepts. -/
theorem checkInclusion_iff {leaf root : Bytes} (hleaf : leaf.length = 32)
    (hroot : root.length = 32) {size index : ℕ} (hsize : size ≤ maxSafeInteger)
    (hindex : index < size) {path : List Bytes} (hpath : ∀ node ∈ path, node.length = 32) :
    checkInclusion leaf root (number index) (number size) path = some (.ok ()) ↔
      Merkle.verifyInclusion index leaf path root size = true := by
  obtain ⟨result, hfold, hsame⟩ := fold_rootFromInclusion leaf hsize hindex hpath
  have hlengths : ¬(leaf.length ≠ Merkle.hashSize ∨ root.length ≠ Merkle.hashSize) := by
    rw [hleaf, hroot]
    decide
  rw [checkInclusion, hfold, Option.map_some, Option.some_inj, Merkle.verifyInclusion,
    if_neg (by omega), if_neg hlengths]
  generalize Merkle.rootFromInclusion index size leaf path = folded at hsame
  cases result with
  | error e =>
      cases folded with
      | error e' => simp [Except.bind]
      | ok computed => exact absurd hsame (by simp [Except.toOption])
  | ok computed =>
      cases folded with
      | error e' => exact absurd hsame (by simp [Except.toOption])
      | ok computed' =>
          obtain rfl : computed = computed' := Option.some.inj hsame
          simp [Except.bind, fail]

end Signal402.RouteGuard
