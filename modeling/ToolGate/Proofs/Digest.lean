import Mathlib.Data.List.GetD
import Mathlib.Data.List.Induction
import ToolGate.Digest.Sha256

/-!
# The digest by the block

The digest is computed byte by byte, with the schedule of a block in reverse. The standard says it by
the block: a padded message is cut into blocks of 64 bytes, a block has a schedule of 64 words, each
from the sixteenth on the sum of four earlier ones, and the blocks are mixed into the chaining words
one after another. Both ways give the same digest.

* `schedule_eq`: the schedule of a block;
* `foldl_absorb_of_block`, `foldl_absorb_of_blocks`: taking in the bytes of a block, and of many;
* `hash_eq`, `hexDigest_eq`: the hash and its digits;
* `length_hexDigest`, `mem_hexDigest`: there are 64 digits, with small letters.
-/

namespace ToolGate.Sha256

/-! ## Schedules -/

/-- What the word 15 places before the next one is made to. -/
def sigma0 (w : UInt32) : UInt32 := rotate w 7 ^^^ rotate w 18 ^^^ (w >>> 3)

/-- What the word 2 places before the next one is made to. -/
def sigma1 (w : UInt32) : UInt32 := rotate w 17 ^^^ rotate w 19 ^^^ (w >>> 10)

/-- The word `t` of the schedule of a block. -/
def scheduleWord (block : List UInt32) (t : Nat) : UInt32 :=
  if t < 16 then block.getD t 0
  else
    sigma1 (scheduleWord block (t - 2)) + scheduleWord block (t - 7) +
      sigma0 (scheduleWord block (t - 15)) + scheduleWord block (t - 16)
termination_by t

theorem scheduleWord_of_lt (block : List UInt32) {t : Nat} (h : t < 16) :
    scheduleWord block t = block.getD t 0 := by
  rw [scheduleWord, if_pos h]

theorem scheduleWord_of_le (block : List UInt32) {t : Nat} (h : 16 ≤ t) :
    scheduleWord block t = sigma1 (scheduleWord block (t - 2)) + scheduleWord block (t - 7) +
      sigma0 (scheduleWord block (t - 15)) + scheduleWord block (t - 16) := by
  rw [scheduleWord, if_neg (by omega)]

/-- From the latest of the words so far backwards, the word at `i` is the one with the index that is
left of them. -/
theorem getD_reverse_map_range (f : Nat → UInt32) {n i : Nat} (h : i < n) :
    ((List.range n).map f).reverse.getD i 0 = f (n - 1 - i) := by
  have hlength : i < ((List.range n).map f).reverse.length := by simpa using h
  rw [List.getD_eq_getElem _ _ hlength, List.getElem_reverse, List.getElem_map, List.getElem_range]
  congr 1
  simp

/-- The next word is the sum of the words 2, 7, 15 and 16 places before it. -/
theorem nextWord_eq (block : List UInt32) {n : Nat} (h : 16 ≤ n) :
    nextWord ((List.range n).map (scheduleWord block)).reverse = scheduleWord block n := by
  have hplace : ∀ i < 16, ((List.range n).map (scheduleWord block)).reverse.getD i 0 =
      scheduleWord block (n - (i + 1)) := by
    intro i hi
    rw [getD_reverse_map_range _ (by omega)]
    congr 1
    omega
  unfold nextWord
  rw [hplace 1 (by omega), hplace 6 (by omega), hplace 14 (by omega), hplace 15 (by omega),
    scheduleWord_of_le block h]
  -- the same four summands, taken in another order
  change scheduleWord block (n - 16) + sigma0 (scheduleWord block (n - 15)) +
    scheduleWord block (n - 7) + sigma1 (scheduleWord block (n - 2)) = _
  ac_rfl

/-- The words of a block of sixteen are the first ones of its schedule. -/
theorem map_scheduleWord_of_block {block : List UInt32} (h : block.length = 16) :
    (List.range 16).map (scheduleWord block) = block := by
  apply List.ext_getElem
  · simp [h]
  · intro i hi hi'
    have hlt : i < 16 := by omega
    rw [List.getElem_map, List.getElem_range, scheduleWord_of_lt block hlt,
      List.getD_eq_getElem _ _ hi']

/-- The schedule that is made backwards is that of the block. -/
theorem schedule_eq {block : List UInt32} (h : block.length = 16) :
    schedule block = (List.range 64).map (scheduleWord block) := by
  -- after `n` steps the words so far are the first `16 + n`, in reverse
  have hsteps : ∀ n, (List.range n).foldl (fun latest _ => nextWord latest :: latest)
      block.reverse = ((List.range (16 + n)).map (scheduleWord block)).reverse := by
    intro n
    induction n with
    | zero => rw [List.range_zero, List.foldl_nil, map_scheduleWord_of_block h]
    | succ n ih =>
      rw [List.range_succ, List.foldl_append, ih, List.foldl_cons, List.foldl_nil,
        nextWord_eq block (by omega), ← Nat.add_assoc, List.range_succ, List.map_append,
        List.reverse_append]
      rfl
  unfold schedule
  rw [hsteps 48, List.reverse_reverse]

/-! ## Blocks -/

theorem length_words {n : Nat} {bytes : List UInt8} (h : bytes.length = 4 * n) :
    (words bytes).length = n := by
  induction n generalizing bytes with
  | zero =>
    have hnil : bytes = [] := List.length_eq_zero_iff.1 h
    rw [hnil]
    rfl
  | succ n ih =>
    match bytes, h with
    | _ :: _ :: _ :: _ :: rest, h =>
      have hrest : rest.length = 4 * n := by
        simp only [List.length_cons] at h
        omega
      rw [words, List.length_cons, ih hrest]

/-- A block of bytes mixed into the chaining words. -/
def mix (s : Chain) (block : List UInt8) : Chain :=
  let schedule := (List.range 64).map (scheduleWord (words block))
  let r := (roundConstants.zip schedule).foldl (fun r kw => round r kw.1 kw.2) s
  ⟨s.a + r.a, s.b + r.b, s.c + r.c, s.d + r.d, s.e + r.e, s.f + r.f, s.g + r.g, s.h + r.h⟩

/-- A block of bytes is mixed in by its words. -/
theorem compress_words {block : List UInt8} (h : block.length = 64) (s : Chain) :
    compress s (words block) = mix s block := by
  have hwords : (words block).length = 16 := length_words h
  unfold compress mix
  rw [schedule_eq hwords]

/-- Bytes that do not fill a block are pending. -/
theorem foldl_absorb_of_lt (s : Chain) {bytes : List UInt8} (h : bytes.length < 64) :
    bytes.foldl Progress.absorb ⟨s, 0, []⟩ = ⟨s, bytes.length, bytes.reverse⟩ := by
  -- by induction from the end, since it is the last byte that may fill a block
  induction bytes using List.reverseRecOn with
  | nil => rfl
  | append_singleton bytes b ih =>
    rw [List.length_append, List.length_singleton] at h
    have hfew : bytes.length + 1 ≠ 64 := by omega
    rw [List.foldl_append, ih (by omega), List.foldl_cons, List.foldl_nil, Progress.absorb,
      if_neg hfew, List.length_append, List.reverse_append]
    rfl

/-- The last byte of a block has the block mixed in. -/
theorem foldl_absorb_of_block (s : Chain) {block : List UInt8} (h : block.length = 64) :
    block.foldl Progress.absorb ⟨s, 0, []⟩ = ⟨mix s block, 0, []⟩ := by
  rcases List.eq_nil_or_concat block with rfl | ⟨bytes, b, rfl⟩
  · simp at h
  · have hbytes : bytes.length = 63 := by
      rw [List.length_concat] at h
      omega
    rw [← compress_words h, List.concat_eq_append, List.foldl_append,
      foldl_absorb_of_lt s (by omega), List.foldl_cons, List.foldl_nil, Progress.absorb,
      if_pos (by simp only [hbytes]), List.reverse_cons, List.reverse_reverse]

/-- The first `n` blocks of 64 bytes. -/
def blocks : (n : Nat) → List UInt8 → List (List UInt8)
  | 0, _ => []
  | n + 1, bytes => bytes.take 64 :: blocks n (bytes.drop 64)

/-- Whole blocks are mixed in one after another. -/
theorem foldl_absorb_of_blocks (n : Nat) (s : Chain) {bytes : List UInt8}
    (h : bytes.length = 64 * n) :
    bytes.foldl Progress.absorb ⟨s, 0, []⟩ = ⟨(blocks n bytes).foldl mix s, 0, []⟩ := by
  induction n generalizing s bytes with
  | zero =>
    have hnil : bytes = [] := List.length_eq_zero_iff.1 h
    rw [hnil]
    rfl
  | succ n ih =>
    have hblock : (bytes.take 64).length = 64 := by
      rw [List.length_take]
      omega
    have hrest : (bytes.drop 64).length = 64 * n := by
      rw [List.length_drop]
      omega
    rw [blocks, List.foldl_cons, ← ih _ hrest, ← foldl_absorb_of_block s hblock,
      ← List.foldl_append, List.take_append_drop]

/-! ## Padding -/

theorem length_bytesOf (count n : Nat) : (bytesOf count n).length = count := by
  induction count generalizing n with
  | zero => rfl
  | succ count ih => rw [bytesOf, List.length_append, ih, List.length_singleton]

def padded (message : List UInt8) : List UInt8 := message ++ padding message.length

/-- A padded message is made of whole blocks. -/
theorem length_padded (message : List UInt8) :
    (padded message).length = 64 * ((padded message).length / 64) := by
  have hlength : (padded message).length =
      message.length + (1 + (119 - message.length % 64) % 64 + 8) := by
    unfold padded padding
    rw [List.length_append, List.length_append, List.length_cons, List.length_replicate,
      length_bytesOf]
    omega
  omega

/-! ## Digests -/

/-- The hash of a message by the block. -/
def blockHash (message : List UInt8) : List UInt8 :=
  ((blocks ((padded message).length / 64) (padded message)).foldl mix initial).bytes

/-- Byte by byte and by the block the hash is the same. -/
theorem hash_eq (message : List UInt8) : hash message = blockHash message := by
  have hfold := foldl_absorb_of_blocks _ initial (length_padded message)
  change ((padded message).foldl Progress.absorb ⟨initial, 0, []⟩).chain.bytes = _
  rw [hfold]
  rfl

/-- Bytes in hexadecimal digits, two for each. -/
def hex (bytes : List UInt8) : String :=
  String.ofList (bytes.flatMap fun b => Text.hexDigits 2 b.toNat)

/-- The digest of a text is the block hash of its UTF-8 bytes. -/
theorem hexDigest_eq (s : String) : hexDigest s = hex (blockHash s.toUTF8.toList) := by
  unfold hexDigest hex
  rw [hash_eq]

theorem length_hexDigest (s : String) : (hexDigest s).length = 64 := by
  have hbytes : ∀ bytes : List UInt8,
      (bytes.flatMap fun b => Text.hexDigits 2 b.toNat).length = 2 * bytes.length := by
    intro bytes
    induction bytes with
    | nil => rfl
    | cons b bytes ih =>
      rw [List.flatMap_cons, List.length_append, ih, List.length_cons]
      simp only [Text.hexDigits, List.length_append, List.length_nil, List.length_singleton]
      omega
  unfold hexDigest
  rw [String.length_ofList, hbytes]
  unfold hash Chain.bytes
  simp only [List.flatMap_cons, List.flatMap_nil, List.length_append, length_bytesOf,
    List.length_nil]

/-- Digests are written in small letters. -/
theorem mem_hexDigest {s : String} {c : Char} (h : c ∈ (hexDigest s).toList) :
    c ∈ "0123456789abcdef".toList := by
  have hdigit : ∀ d < 16, Text.hexDigit d ∈ "0123456789abcdef".toList := by decide
  unfold hexDigest at h
  rw [String.toList_ofList, List.mem_flatMap] at h
  obtain ⟨b, -, hc⟩ := h
  simp only [Text.hexDigits, List.nil_append, List.singleton_append, List.mem_cons,
    List.not_mem_nil, or_false] at hc
  rcases hc with rfl | rfl
  · exact hdigit _ (Nat.mod_lt _ (by omega))
  · exact hdigit _ (Nat.mod_lt _ (by omega))

/-- The empty text has one block, all of it padding. -/
example : hexDigest "" =
    "e3b0c44298fc1c149afbf4c8996fb92427ae41e4649b934ca495991b7852b855" := by
  decide +kernel

end ToolGate.Sha256
