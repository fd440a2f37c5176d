import Mathlib.Algebra.Order.Field.Rat
import Mathlib.Data.List.MinMax
import Mathlib.Data.List.Nodup
import Mathlib.Data.List.Pairwise
import Mathlib.Tactic.FieldSimp
import Mathlib.Tactic.Ring

/-!
# The Huffman encoder

Model of `Encoder::Huffman` (`mem/cache/compressors/encoders/huffman.cc`). The trees are
merged in any order that takes two of the least frequent ones, since the priority queue
does not say which of several equal ones is on top.

A code is written with its length into one map, but without it into the map that `decode`
reads. So a code that is another one with zeros in front of it takes its place there.
`decodes_iff` says which values come back.
-/
namespace RasCache.Mem.Huffman

abbrev Value := BitVec 64

structure Code where
  code : BitVec 64
  length : Nat

inductive Node
  | leaf (value frequency : BitVec 64)
  | inner (left right : Node)

def Node.getFrequency : Node → BitVec 64
  | leaf _ frequency => frequency
  | inner left right => left.getFrequency + right.getFrequency

/-- A value that never occurs is not pushed. -/
def sample (trees : List Node) (value : Value) (frequency : BitVec 64) : List Node :=
  if frequency ≠ 0 then .leaf value frequency :: trees else trees

def sampled (samples : List (Value × BitVec 64)) : List Node :=
  samples.foldl (fun trees s => sample trees s.1 s.2) []

/-- The tree on top of the queue and the others. -/
def Top (trees : List Node) (top : Node) (rest : List Node) : Prop :=
  trees.Perm (top :: rest) ∧ ∀ other ∈ rest, top.getFrequency ≤ other.getFrequency

/-- The trees that `buildTree` can make. -/
inductive BuildTree : List Node → Node → Prop
  | done (root : Node) : BuildTree [root] root
  | merge {trees others rest : List Node} {left right root : Node} (first : Top trees left others)
      (second : Top others right rest) (later : BuildTree (.inner left right :: rest) root) :
      BuildTree trees root

/-- What was written into the two maps, the latest first. Each leaf is written into both. -/
abbrev CodeMaps := List (Value × Code)

def CodeMaps.valueToCode (maps : CodeMaps) (value : Value) : Option Code :=
  (maps.find? (·.1 = value)).map Prod.snd

def CodeMaps.codeToValue (maps : CodeMaps) (code : BitVec 64) : Option Value :=
  (maps.find? (·.2.code = code)).map Prod.fst

def generateCodes (maxCodeLength : Nat) : Node → Code → CodeMaps → CodeMaps
  | .leaf value _, current, maps =>
      if current.length > maxCodeLength then maps else (value, current) :: maps
  | .inner left right, current, maps =>
      if current.length > maxCodeLength then maps
      else
        generateCodes maxCodeLength left ⟨current.code <<< 1, current.length + 1⟩
          (generateCodes maxCodeLength right ⟨(current.code <<< 1) + 1, current.length + 1⟩ maps)

def generateCodeMaps (maxCodeLength : Nat) (root : Node) : CodeMaps :=
  generateCodes maxCodeLength root ⟨0, 0⟩ []

/-- An unknown value gets a length that no code has. -/
def CodeMaps.encode (maps : CodeMaps) (value : Value) : Code :=
  (maps.valueToCode value).getD ⟨0, 65⟩

/-- An unknown code fails the assertion. -/
def CodeMaps.decode (maps : CodeMaps) (code : BitVec 64) : Option Value := maps.codeToValue code

/-! ### Building the tree -/

def Node.values : Node → List Value
  | leaf value _ => [value]
  | inner left right => left.values ++ right.values

variable {trees : List Node} {samples : List (Value × BitVec 64)}

theorem BuildTree.values {root : Node} (built : BuildTree trees root) :
    root.values.Perm (trees.flatMap Node.values) := by
  induction built with
  | done root => simp
  | merge first second _ ih =>
    refine ih.trans (.trans ?_ (.flatMap_right _ (first.1.trans (second.1.cons _)).symm))
    simp [Node.values]

theorem exists_top (some_ : trees ≠ []) : ∃ top rest, Top trees top rest := by
  obtain ⟨top, least⟩ : ∃ top, trees.argmin (·.getFrequency.toNat) = some top :=
    Option.ne_none_iff_exists'.mp fun none_ => some_ (List.argmin_eq_none.mp none_)
  obtain ⟨before, behind, split⟩ := List.append_of_mem (List.argmin_mem least)
  refine ⟨top, before ++ behind, split ▸ List.perm_middle, fun other mem => ?_⟩
  have listed : other ∈ trees := by
    rw [split]
    exact List.perm_middle.mem_iff.mpr (List.mem_cons_of_mem top mem)
  exact List.le_of_mem_argmin (f := fun tree : Node => tree.getFrequency.toNat) listed least

/-- Every merge leaves one tree less. -/
theorem exists_build (count : Nat) (length : trees.length = count + 1) :
    ∃ root, BuildTree trees root := by
  induction count generalizing trees with
  | zero =>
    obtain ⟨root, rfl⟩ := List.length_eq_one_iff.mp length
    exact ⟨root, .done root⟩
  | succ count ih =>
    obtain ⟨left, others, first⟩ := exists_top (List.ne_nil_of_length_eq_add_one length)
    have fewer : others.length = count + 1 := by simpa [length] using first.1.length_eq.symm
    obtain ⟨right, rest, second⟩ := exists_top (List.ne_nil_of_length_eq_add_one fewer)
    have two : rest.length = count := by simpa [fewer] using second.1.length_eq.symm
    have merged : (Node.inner left right :: rest).length = count + 1 := congrArg (· + 1) two
    obtain ⟨root, built⟩ := ih merged
    exact ⟨root, .merge first second built⟩

theorem sampled_eq (positive : ∀ s ∈ samples, s.2 ≠ 0) :
    sampled samples = (samples.map fun s => Node.leaf s.1 s.2).reverse := by
  have loop (trees : List Node) : samples.foldl (fun trees s => sample trees s.1 s.2) trees =
      (samples.map fun s => Node.leaf s.1 s.2).reverse ++ trees := by
    induction samples generalizing trees with
    | nil => rfl
    | cons s samples ih =>
      rw [List.foldl_cons, sample, if_pos (positive s List.mem_cons_self),
        ih fun other mem => positive other (List.mem_cons_of_mem s mem)]
      simp
  exact (loop []).trans (List.append_nil _)

theorem BuildTree.sampled (positive : ∀ s ∈ samples, s.2 ≠ 0) {root : Node}
    (built : BuildTree (sampled samples) root) : root.values.Perm (samples.map Prod.fst) := by
  refine built.values.trans ?_
  rw [sampled_eq positive]
  refine (List.Perm.flatMap_right _ (List.reverse_perm _)).trans ?_
  rw [List.flatMap_map]
  exact .of_eq (List.flatMap_pure_eq_map ..)

/-! ### Code words -/

/-- The bits of a code as a number without a bound. -/
structure Word where
  number : Nat
  length : Nat

namespace Word

def left (word : Word) : Word := ⟨2 * word.number, word.length + 1⟩

def right (word : Word) : Word := ⟨2 * word.number + 1, word.length + 1⟩

def code (word : Word) : Code := ⟨BitVec.ofNat 64 word.number, word.length⟩

/-- The binary fractions that begin with a word are those from here ... -/
def start (word : Word) : ℚ := word.number / 2 ^ word.length

/-- ... to below here. -/
def stop (word : Word) : ℚ := (word.number + 1) / 2 ^ word.length

variable (word : Word)

theorem code_left : word.left.code = ⟨word.code.code <<< 1, word.code.length + 1⟩ := by
  simp only [code, left, Code.mk.injEq, and_true]
  apply BitVec.eq_of_toNat_eq
  simp [Nat.shiftLeft_eq, Nat.mul_comm]

theorem code_right : word.right.code = ⟨(word.code.code <<< 1) + 1, word.code.length + 1⟩ := by
  simp only [code, right, Code.mk.injEq, and_true]
  apply BitVec.eq_of_toNat_eq
  simp [Nat.shiftLeft_eq, Nat.mul_comm]

theorem start_left : word.left.start = word.start := by
  simp only [start, left, pow_succ]
  push_cast
  field_simp

theorem stop_left : word.left.stop = word.right.start := by
  simp [start, stop, left, right]

theorem stop_right : word.right.stop = word.stop := by
  simp only [stop, right, pow_succ]
  push_cast
  field_simp
  ring

theorem start_le_stop : word.start ≤ word.stop :=
  div_le_div_of_nonneg_right (lt_add_one _).le (pow_pos two_pos _).le

theorem start_right_mem : word.start ≤ word.right.start ∧ word.right.start ≤ word.stop := by
  constructor
  · rw [← start_left, ← stop_left]
    exact start_le_stop _
  · rw [← stop_right]
    exact start_le_stop _

variable {word} {other : Word}

theorem stop_le_start_iff : word.stop ≤ other.start ↔
    (word.number + 1) * 2 ^ other.length ≤ other.number * 2 ^ word.length := by
  rw [stop, start, div_le_div_iff₀ (pow_pos two_pos _) (pow_pos two_pos _)]
  exact_mod_cast Iff.rfl

/-- Of two words with the same number, the one on the left is longer. -/
theorem shorter (same : other.number = word.number) (apart : word.stop ≤ other.start) :
    other.length < word.length := by
  by_contra longer
  have pows : 2 ^ word.length ≤ 2 ^ other.length :=
    Nat.pow_le_pow_right (by decide) (Nat.le_of_not_lt longer)
  rw [stop_le_start_iff, same, Nat.succ_mul] at apart
  have most := Nat.mul_le_mul_left word.number pows
  have positive := Nat.two_pow_pos other.length
  omega

end Word

/-- No binary fraction begins with both words. -/
def Word.Apart (word other : Word) : Prop := word.stop ≤ other.start ∨ other.stop ≤ word.start

/-- The bits of the first code are the first bits of the second one. -/
def Code.IsFront (first second : Code) : Prop :=
  first.length ≤ second.length ∧ second.code >>> (second.length - first.length) = first.code

theorem Word.Apart.not_isFront {word other : Word} (apart : word.Apart other)
    (small : word.number < 2 ^ 64) (small' : other.number < 2 ^ 64) :
    ¬ word.code.IsFront other.code := by
  rintro ⟨shorter, bits⟩
  obtain ⟨more, length⟩ : ∃ more, other.length = word.length + more :=
    Nat.exists_eq_add_of_le shorter
  have bits := congrArg BitVec.toNat bits
  simp only [code, length, Nat.add_sub_cancel_left, BitVec.toNat_ushiftRight, BitVec.toNat_ofNat,
    Nat.mod_eq_of_lt small, Nat.mod_eq_of_lt small', Nat.shiftRight_eq_div_pow] at bits
  have low : word.number * 2 ^ more ≤ other.number := bits ▸ Nat.div_mul_le_self _ _
  have high : other.number < (word.number + 1) * 2 ^ more := by
    rw [← bits, Nat.mul_comm]
    exact Nat.lt_mul_div_succ _ (Nat.two_pow_pos more)
  have positive := Nat.two_pow_pos word.length
  rcases apart with apart | apart <;>
    rw [stop_le_start_iff, length, Nat.pow_add, Nat.mul_comm (2 ^ word.length),
      ← Nat.mul_assoc] at apart
  · exact Nat.not_le.mpr high (Nat.le_of_mul_le_mul_right apart positive)
  · have below := Nat.le_of_mul_le_mul_right apart positive
    omega

/-! ### Writing the maps -/

/-- The values with their words, from the left to the right, below a node with a word. -/
def Node.words : Node → Word → List (Value × Word)
  | leaf value _, word => [(value, word)]
  | inner left right, word => left.words word.left ++ right.words word.right

theorem Node.map_fst_words (node : Node) (word : Word) :
    (node.words word).map Prod.fst = node.values := by
  induction node generalizing word with
  | leaf => rfl
  | inner left right ihLeft ihRight => rw [words, List.map_append, ihLeft, ihRight, values]

theorem Node.words_within (node : Node) (word : Word) : ∀ e ∈ node.words word,
    word.length ≤ e.2.length ∧ word.start ≤ e.2.start ∧ e.2.stop ≤ word.stop := by
  induction node generalizing word with
  | leaf => simp [words]
  | inner left right ihLeft ihRight =>
    intro e mem
    rcases List.mem_append.mp mem with mem | mem
    · obtain ⟨longer, start, stop⟩ := ihLeft word.left e mem
      rw [word.start_left] at start
      rw [word.stop_left] at stop
      exact ⟨Nat.le_of_succ_le longer, start, stop.trans word.start_right_mem.2⟩
    · obtain ⟨longer, start, stop⟩ := ihRight word.right e mem
      rw [word.stop_right] at stop
      exact ⟨Nat.le_of_succ_le longer, word.start_right_mem.1.trans start, stop⟩

theorem Node.words_ordered (node : Node) (word : Word) :
    (node.words word).Pairwise fun first second => first.2.stop ≤ second.2.start := by
  induction node generalizing word with
  | leaf => exact List.pairwise_singleton _ _
  | inner left right ihLeft ihRight =>
    refine List.pairwise_append.mpr ⟨ihLeft _, ihRight _, fun first mem second mem' => ?_⟩
    exact (left.words_within _ first mem).2.2.trans
      (word.stop_left.trans_le (right.words_within _ second mem').2.1)

/-- The values with their paths, where `true` is a turn to the right. -/
def Node.paths : Node → List (Value × List Bool)
  | leaf value _ => [(value, [])]
  | inner left right =>
      left.paths.map (Prod.map id (false :: ·)) ++ right.paths.map (Prod.map id (true :: ·))

namespace Word

def turn (word : Word) (right : Bool) : Word := if right then word.right else word.left

/-- The word at the end of a path. -/
def follow (word : Word) (path : List Bool) : Word := path.foldl turn word

theorem follow_length (word : Word) (path : List Bool) :
    (word.follow path).length = word.length + path.length := by
  induction path generalizing word with
  | nil => rfl
  | cons right path ih =>
    have longer : (word.turn right).length = word.length + 1 := by cases right <;> rfl
    rw [follow, List.foldl_cons, ← follow, ih, longer, List.length_cons, Nat.add_right_comm,
      Nat.add_assoc]

/-- Paths of one length lead to the same number only if they are the same. -/
theorem follow_number_iff {word other : Word} {path path' : List Bool}
    (length : path.length = path'.length) :
    (word.follow path).number = (other.follow path').number ↔
      word.number = other.number ∧ path = path' := by
  induction path generalizing word other path' with
  | nil => simp [List.length_eq_zero_iff.mp length.symm, follow]
  | cons right path ih =>
    obtain _ | ⟨right', path'⟩ := path'
    · cases length
    have here : (word.turn right).number = (other.turn right').number ↔
        word.number = other.number ∧ right = right' := by
      cases right <;> cases right' <;> simp [turn, left, Word.right] <;> omega
    rw [follow, follow, List.foldl_cons, List.foldl_cons, ← follow, ← follow,
      ih (Nat.succ.inj length), here, List.cons.injEq, and_assoc]

/-- The word of a leaf with this path. -/
def ofPath (path : List Bool) : Word := follow ⟨0, 0⟩ path

@[simp]
theorem ofPath_length (path : List Bool) : (ofPath path).length = path.length :=
  (follow_length ⟨0, 0⟩ path).trans (Nat.zero_add _)

theorem ofPath_zeros (zeros : Nat) (path : List Bool) :
    (ofPath (List.replicate zeros false ++ path)).number = (ofPath path).number := by
  have front (length : Nat) : (List.replicate zeros false).foldl turn ⟨0, length⟩ =
      ⟨0, length + zeros⟩ := by
    induction zeros generalizing length with
    | zero => rfl
    | succ zeros ih => exact (ih (length + 1)).trans (by rw [Nat.add_assoc, Nat.add_comm 1])
  rw [ofPath, follow, List.foldl_append, front]
  exact (follow_number_iff rfl).mpr ⟨rfl, rfl⟩

end Word

theorem Node.words_eq (node : Node) (word : Word) :
    node.words word = node.paths.map (Prod.map id word.follow) := by
  induction node generalizing word with
  | leaf => rfl
  | inner left right ihLeft ihRight =>
    rw [words, paths, ihLeft, ihRight, List.map_append, List.map_map, List.map_map]
    rfl

/-- The words of a whole tree. -/
abbrev Node.leaves (root : Node) : List (Value × Word) := root.words ⟨0, 0⟩

/-- The words whose codes are kept. -/
def Node.kept (maxCodeLength : Nat) (root : Node) : List (Value × Word) :=
  root.leaves.filter (·.2.length ≤ maxCodeLength)

theorem generateCodes_eq (maxCodeLength : Nat) (node : Node) (word : Word) (maps : CodeMaps) :
    generateCodes maxCodeLength node word.code maps =
      ((node.words word).filter (·.2.length ≤ maxCodeLength)).map (Prod.map id Word.code) ++
        maps := by
  by_cases long : word.length > maxCodeLength
  · -- everything below is longer
    rw [List.filter_eq_nil_iff.mpr fun e mem fits => Nat.not_le.mpr long
      (Nat.le_trans (node.words_within word e mem).1 (of_decide_eq_true fits))]
    cases node with
    | leaf | inner => exact if_pos long
  · have here : ¬ word.code.length > maxCodeLength := long
    cases node with
    | leaf => simp [generateCodes, here, Node.words, Nat.le_of_not_lt long]
    | inner left right =>
      rw [generateCodes, if_neg here, ← word.code_left, ← word.code_right,
        generateCodes_eq maxCodeLength left, generateCodes_eq maxCodeLength right]
      simp [Node.words]

/-! ### Encoding and decoding -/

variable {maxCodeLength : Nat} {root : Node} {v : Value} {word : Word}

theorem generateCodeMaps_eq (maxCodeLength : Nat) (root : Node) :
    generateCodeMaps maxCodeLength root = (root.kept maxCodeLength).map (Prod.map id Word.code) :=
  (generateCodes_eq maxCodeLength root ⟨0, 0⟩ []).trans (List.append_nil _)

theorem mem_kept : (v, word) ∈ root.kept maxCodeLength ↔
    (v, word) ∈ root.leaves ∧ word.length ≤ maxCodeLength := by
  simp [Node.kept]

theorem mem_leaves : (v, word) ∈ root.leaves ↔
    ∃ path, (v, path) ∈ root.paths ∧ Word.ofPath path = word := by
  rw [Node.leaves, Node.words_eq, List.mem_map]
  constructor
  · rintro ⟨⟨v, path⟩, mem, ⟨⟩⟩
    exact ⟨path, mem, rfl⟩
  · rintro ⟨path, mem, rfl⟩
    exact ⟨_, mem, rfl⟩

theorem number_lt (limit : maxCodeLength ≤ 64) (kept : (v, word) ∈ root.kept maxCodeLength) :
    word.number < 2 ^ 64 := by
  obtain ⟨mem, short⟩ := mem_kept.mp kept
  have stop := (root.words_within _ _ mem).2.2
  have whole : Word.stop ⟨0, 0⟩ = Word.start ⟨1, 0⟩ := by simp [Word.stop, Word.start]
  rw [whole, Word.stop_le_start_iff] at stop
  have small := Nat.pow_le_pow_right (by decide : 0 < 2) (Nat.le_trans short limit)
  simp only at stop
  omega

theorem word_unique (distinct : root.values.Nodup) {other : Word} (mem : (v, word) ∈ root.leaves)
    (mem' : (v, other) ∈ root.leaves) : word = other := by
  rw [← root.map_fst_words ⟨0, 0⟩] at distinct
  exact congrArg Prod.snd (List.inj_on_of_nodup_map distinct mem mem' rfl)

theorem encode_eq (maxCodeLength : Nat) (root : Node) (v : Value) :
    (generateCodeMaps maxCodeLength root).encode v =
      (((root.kept maxCodeLength).find? (·.1 = v)).map (·.2.code)).getD ⟨0, 65⟩ := by
  rw [CodeMaps.encode, CodeMaps.valueToCode, generateCodeMaps_eq, List.find?_map, Option.map_map]
  rfl

theorem encode_word (limit : maxCodeLength ≤ 64)
    (short : ((generateCodeMaps maxCodeLength root).encode v).length ≤ maxCodeLength) :
    ∃ word, (v, word) ∈ root.kept maxCodeLength ∧
      (generateCodeMaps maxCodeLength root).encode v = word.code := by
  rw [encode_eq] at short ⊢
  cases found : (root.kept maxCodeLength).find? (·.1 = v) with
  | none =>
    rw [found] at short
    exact absurd (Nat.le_trans short limit) (by decide)
  | some e =>
    have same : e.1 = v := by simpa using List.find?_some found
    exact ⟨e.2, same ▸ List.mem_of_find?_eq_some found, rfl⟩

variable {w : Value}

theorem code_eq_iff (limit : maxCodeLength ≤ 64) {other : Word}
    (kept : (v, word) ∈ root.kept maxCodeLength) (kept' : (w, other) ∈ root.kept maxCodeLength) :
    word.code.code = other.code.code ↔ word.number = other.number := by
  simp only [Word.code, ← BitVec.toNat_inj, BitVec.toNat_ofNat,
    Nat.mod_eq_of_lt (number_lt limit kept), Nat.mod_eq_of_lt (number_lt limit kept')]

theorem leaves_apart {other : Word} (mem : (v, word) ∈ root.leaves)
    (mem' : (w, other) ∈ root.leaves) (different : v ≠ w) : word.Apart other := by
  have : Std.Symm fun first second : Value × Word => first.2.Apart second.2 :=
    ⟨fun _ _ => Or.symm⟩
  have either : root.leaves.Pairwise fun first second => first.2.Apart second.2 :=
    (root.words_ordered ⟨0, 0⟩).imp .inl
  exact either.forall mem mem' fun same => different (congrArg Prod.fst same)

/-- A value comes back if no longer word has its bits. -/
theorem decode_kept_iff (limit : maxCodeLength ≤ 64) (distinct : root.values.Nodup)
    (kept : (v, word) ∈ root.kept maxCodeLength) :
    (generateCodeMaps maxCodeLength root).decode word.code.code = some v ↔
      ∀ w other, (w, other) ∈ root.kept maxCodeLength →
        other.code.code = word.code.code → other.length ≤ word.length := by
  obtain ⟨⟨w, first⟩, found⟩ := Option.isSome_iff_exists.mp (List.find?_isSome
    (p := (·.2.code.code = word.code.code)).mpr ⟨_, kept, decide_eq_true rfl⟩)
  have decoded : (generateCodeMaps maxCodeLength root).decode word.code.code = some w := by
    rw [CodeMaps.decode, CodeMaps.codeToValue, generateCodeMaps_eq, List.find?_map]
    exact congrArg (fun found => (found.map (Prod.map id Word.code)).map Prod.fst) found
  obtain ⟨same, before, behind, split, none_⟩ := List.find?_eq_some_iff_append.mp found
  have kept' := List.mem_of_find?_eq_some found
  have same : first.code.code = word.code.code := of_decide_eq_true same
  have ordered : (before ++ (w, first) :: behind).Pairwise fun first second =>
      first.2.stop ≤ second.2.start := split ▸ (root.words_ordered ⟨0, 0⟩).filter _
  -- the words with these bits are the first one and shorter ones
  have longest (x : Value) (other : Word) (listed : (x, other) ∈ root.kept maxCodeLength)
      (bits : other.code.code = word.code.code) :
      (x, other) = (w, first) ∨ other.length < first.length := by
    have number := (code_eq_iff limit listed kept').mp (bits.trans same.symm)
    rw [split] at listed
    rcases List.mem_append.mp listed with early | late
    · simpa [bits] using none_ _ early
    rcases List.mem_cons.mp late with here | late
    · exact .inl here
    · have apart := (List.pairwise_cons.mp (List.pairwise_append.mp ordered).2.1).1 _ late
      exact .inr (Word.shorter number apart)
  rw [decoded]
  constructor
  · rintro ⟨⟩ x other listed bits
    obtain rfl := word_unique distinct (mem_kept.mp kept).1 (mem_kept.mp kept').1
    rcases longest x other listed bits with here | shorter
    · cases here
      exact Nat.le_refl _
    · exact Nat.le_of_lt shorter
  · intro longer
    rcases longest v word kept rfl with here | shorter
    · cases here
      rfl
    · exact absurd (longer w first kept' same) (Nat.not_le.mpr shorter)

/-- A longer word with the same bits is the one of a path with zeros in front. -/
theorem longest_iff (limit : maxCodeLength ≤ 64) {path : List Bool}
    (kept : (v, Word.ofPath path) ∈ root.kept maxCodeLength) :
    (∀ w other, (w, other) ∈ root.kept maxCodeLength →
      other.code.code = (Word.ofPath path).code.code → other.length ≤ (Word.ofPath path).length) ↔
      ∀ w zeros, (w, List.replicate (zeros + 1) false ++ path) ∈ root.paths →
        maxCodeLength < zeros + 1 + path.length := by
  constructor
  · intro longest w zeros mem
    by_contra short
    have kept' : (w, Word.ofPath (List.replicate (zeros + 1) false ++ path)) ∈
        root.kept maxCodeLength :=
      mem_kept.mpr ⟨mem_leaves.mpr ⟨_, mem, rfl⟩, by simpa using short⟩
    have bits := (code_eq_iff limit kept' kept).mpr (Word.ofPath_zeros (zeros + 1) path)
    have longest := longest w _ kept' bits
    simp at longest
  · intro none_ w other kept' same
    obtain ⟨leaf, short⟩ := mem_kept.mp kept'
    obtain ⟨path', mem, rfl⟩ := mem_leaves.mp leaf
    by_contra longer
    simp only [Word.ofPath_length] at longer short
    obtain ⟨zeros, length⟩ := Nat.exists_eq_add_of_lt (Nat.lt_of_not_le longer)
    have number := (code_eq_iff limit kept' kept).mp same
    rw [← Word.ofPath_zeros (zeros + 1) path, Word.ofPath, Word.ofPath,
      Word.follow_number_iff (by simp; omega)] at number
    have tooLong := none_ w zeros (number.2 ▸ mem)
    omega

/-- The codes of sampled values are prefix-free. A value comes back exactly if no code that is
kept belongs to a path of the tree with zeros in front of its own path. -/
theorem decodes_iff {samples : List (Value × BitVec 64)} (some_ : samples ≠ [])
    (distinct : (samples.map Prod.fst).Nodup) (positive : ∀ s ∈ samples, s.2 ≠ 0)
    (limit : maxCodeLength ≤ 64) : (∃ root, BuildTree (sampled samples) root) ∧
    ∀ root, BuildTree (sampled samples) root → ∀ maps, maps = generateCodeMaps maxCodeLength root →
      ∀ v ∈ samples.map Prod.fst, (maps.encode v).length ≤ maxCodeLength →
        (∀ w ∈ samples.map Prod.fst, w ≠ v → (maps.encode w).length ≤ maxCodeLength →
          ¬ (maps.encode v).IsFront (maps.encode w)) ∧
        ∃ path, (v, path) ∈ root.paths ∧ path.length = (maps.encode v).length ∧
          (maps.decode (maps.encode v).code = some v ↔
            ∀ w zeros, (w, List.replicate (zeros + 1) false ++ path) ∈ root.paths →
              maxCodeLength < zeros + 1 + path.length) := by
  have length : (sampled samples).length = samples.length - 1 + 1 := by
    have := List.length_pos_iff.mpr some_
    rw [sampled_eq positive, List.length_reverse, List.length_map]
    omega
  refine ⟨exists_build _ length, fun root built maps isMaps v _ short => ?_⟩
  subst isMaps
  have distinct := (built.sampled positive).nodup_iff.mpr distinct
  obtain ⟨word, kept, isCode⟩ := encode_word limit short
  constructor
  · intro w _ different short'
    obtain ⟨other, kept', isCode'⟩ := encode_word limit short'
    rw [isCode, isCode']
    have apart := leaves_apart (mem_kept.mp kept).1 (mem_kept.mp kept').1 different.symm
    exact apart.not_isFront (number_lt limit kept) (number_lt limit kept')
  · obtain ⟨path, mem, rfl⟩ := mem_leaves.mp (mem_kept.mp kept).1
    rw [isCode]
    exact ⟨path, mem, (Word.ofPath_length path).symm,
      (decode_kept_iff limit distinct kept).trans (longest_iff limit kept)⟩

/-- The code of 30 is the one of 20 without its first zero. -/
def ambiguous : Node := .inner (.inner (.leaf 10 1) (.leaf 20 1)) (.leaf 30 5)

theorem ambiguous_built : BuildTree (sampled [(10, 1), (20, 1), (30, 5)]) ambiguous := by
  have first : Top (sampled [(10, 1), (20, 1), (30, 5)]) (.leaf 10 1) [.leaf 20 1, .leaf 30 5] :=
    ⟨List.reverse_perm [Node.leaf 10 1, Node.leaf 20 1, Node.leaf 30 5], by decide⟩
  have second : Top [.leaf 20 1, .leaf 30 5] (.leaf 20 1) [.leaf 30 5] := ⟨.refl _, by decide⟩
  exact .merge first second (.merge ⟨.refl _, by decide⟩ ⟨.refl _, nofun⟩ (.done _))

/-- No other path ends with the one of 20. -/
theorem decodes_iff_twenty : ((generateCodeMaps 64 ambiguous).encode 20).length ≤ 64 ∧
    (generateCodeMaps 64 ambiguous).decode ((generateCodeMaps 64 ambiguous).encode 20).code =
      some 20 := by
  have short : ((generateCodeMaps 64 ambiguous).encode 20).length ≤ 64 := by decide
  obtain ⟨path, mem, _, decodes⟩ := ((@decodes_iff 64 [(10, 1), (20, 1), (30, 5)] nofun (by simp)
    (by simp) (by decide)).2 ambiguous ambiguous_built _ rfl 20 (by simp) short).2
  refine ⟨short, decodes.mpr fun w zeros other => ?_⟩
  have isPath : path = [false, true] := by simpa [ambiguous, Node.paths] using mem
  have lengths : ∀ e ∈ ambiguous.paths, e.2.length ≤ 2 := by decide
  have longer := lengths _ other
  simp [isPath] at longer

/-- The value 30 has a code of one bit, which is decoded to 20. -/
theorem thirty_not_decoded : BuildTree (sampled [(10, 1), (20, 1), (30, 5)]) ambiguous ∧
    ((generateCodeMaps 64 ambiguous).encode 30).length = 1 ∧
    (generateCodeMaps 64 ambiguous).decode ((generateCodeMaps 64 ambiguous).encode 30).code =
      some 20 := ⟨ambiguous_built, by decide, by decide⟩

end RasCache.Mem.Huffman
