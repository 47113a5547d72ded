import PlanRunner.Plan.Builder

/-!
# PlanRunner — what an id tells about a position

An id is the shortened hash of four parts, each closed by a unit separator. A layer or
a function may have the separator in its name, so the four parts cannot always be told
apart again. The first and the last can: the id of a parent and an index are made of
digits and letters.

* `Plan.hashId_inj` — equal ids mean equal shortened hashes;
* `Plan.idPreimage_inj` — the bytes an id is derived from determine the parent's id and
  the index.
-/

namespace PlanRunner.Plan

-- ---------------------------------------------------------------------------
-- Bytes without a separator
-- ---------------------------------------------------------------------------

/-- The byte that closes each part. -/
def separator : UInt8 := 0x1f

/-- The bytes of a text. -/
def bytes (s : String) : List UInt8 := s.toUTF8.data.toList

/-- Texts are told apart by their bytes. -/
theorem bytes_inj {s t : String} (h : bytes s = bytes t) : s = t := by
  refine String.toByteArray_inj.mp (ByteArray.ext (Array.toList_inj.mp ?_))
  simpa [bytes] using h

/-- Every byte of a text belongs to one of its characters. -/
theorem mem_bytes {cs : List Char} {b : UInt8} (h : b ∈ bytes (String.ofList cs)) :
    ∃ c ∈ cs, b ∈ String.utf8EncodeChar c := by
  simpa [bytes, List.utf8Encode] using h

/-- The characters of ids and of indices. -/
def idChars : List Char := ['n', '-', '0', '1', '2', '3', '4', '5', '6', '7', '8', '9', 'a', 'b',
  'c', 'd', 'e', 'f']

/-- The separator is in no text of the characters of ids. -/
theorem separator_notMem_bytes {cs : List Char} (h : ∀ c ∈ cs, c ∈ idChars) :
    separator ∉ bytes (String.ofList cs) := by
  intro hmem
  obtain ⟨c, hc, hbyte⟩ := mem_bytes hmem
  -- a list of characters is checked, not the type of all characters
  have hchars : (idChars.all fun c => !(String.utf8EncodeChar c).contains separator) = true := by
    decide
  have hclean := List.all_eq_true.mp hchars c (h c hc)
  simp [hbyte] at hclean

theorem digitChar_mem_idChars {n : Nat} (h : n < 16) : n.digitChar ∈ idChars := by
  have hall : ∀ i : Fin 16, Nat.digitChar i.val ∈ idChars := by decide
  exact hall ⟨n, h⟩

/-- Decimal digits are characters of ids. -/
theorem mem_idChars_of_mem_toDigits {n : Nat} {c : Char} (h : c ∈ Nat.toDigits 10 n) :
    c ∈ idChars := by
  have hdigit := Nat.isDigit_of_mem_toDigits (by decide) (by decide) h
  simp only [Char.isDigit, Bool.and_eq_true, decide_eq_true_eq] at hdigit
  have hlow : 48 ≤ c.toNat := UInt32.le_iff_toNat_le.mp hdigit.1
  have hhigh : c.toNat < 58 := Nat.lt_succ_of_le (UInt32.le_iff_toNat_le.mp hdigit.2)
  -- the ten digits are checked one by one
  have hall : ∀ m < 58, 48 ≤ m → Char.ofNat m ∈ idChars := by decide
  have hmem := hall c.toNat hhigh hlow
  rwa [Char.ofNat_toNat] at hmem

-- ---------------------------------------------------------------------------
-- The shortened hash
-- ---------------------------------------------------------------------------

/-- The part of a hash that goes into an id. -/
def shortHash (preimage : List UInt8) : List UInt8 := (Sha256.digest preimage).take 8

/-- The id made of a shortened hash. -/
def hashId (preimage : List UInt8) : String :=
  String.ofList ('n' :: '-' :: (shortHash preimage).flatMap hexByte)

/-- The id of a node is the hash of its preimage. -/
theorem nodeId_eq (parentId layer function : String) (index : Nat) :
    nodeId parentId layer function index = hashId (idPreimage parentId layer function index) :=
  rfl

/-- Bytes are told apart by their hexadecimal digits. -/
theorem hexByte_inj {b c : UInt8} (h : hexByte b = hexByte c) : b = c := by
  have hall : ∀ i j : Fin 16, Nat.digitChar i.val = Nat.digitChar j.val → i = j := by decide
  have hdigit : ∀ {i j : Nat}, i < 16 → j < 16 → i.digitChar = j.digitChar → i = j :=
    fun hi hj hij => Fin.mk.inj (hall ⟨_, hi⟩ ⟨_, hj⟩ hij)
  have hb := b.toNat_lt
  have hc := c.toNat_lt
  -- both halves of the byte are digits below 16
  simp only [hexByte, List.cons.injEq, and_true] at h
  have hhigh := hdigit (by omega) (by omega) h.1
  have hlow := hdigit (by omega) (by omega) h.2
  exact UInt8.toNat_inj.mp (by omega)

/-- Sequences of bytes are told apart by their hexadecimal digits. -/
theorem flatMap_hexByte_inj {bs cs : List UInt8} (h : bs.flatMap hexByte = cs.flatMap hexByte) :
    bs = cs := by
  -- two digits for each byte, so both sequences are cut in the same way
  induction bs generalizing cs with
  | nil =>
    cases cs with
    | nil => rfl
    | cons c cs => simp [hexByte] at h
  | cons b bs ih =>
    cases cs with
    | nil => simp [hexByte] at h
    | cons c cs =>
      rw [List.flatMap_cons, List.flatMap_cons] at h
      obtain ⟨hbyte, hrest⟩ := List.append_inj h rfl
      rw [hexByte_inj hbyte, ih hrest]

/-- Equal ids mean equal shortened hashes. -/
theorem hashId_inj {x y : List UInt8} (h : hashId x = hashId y) : shortHash x = shortHash y := by
  have hlist := String.ofList_injective h
  simp only [List.cons.injEq, true_and] at hlist
  exact flatMap_hexByte_inj hlist

/-- The separator is in no hash. -/
theorem separator_notMem_hashId (x : List UInt8) : separator ∉ bytes (hashId x) := by
  refine separator_notMem_bytes fun c hc => ?_
  rcases List.mem_cons.mp hc with rfl | hc
  · decide
  · rcases List.mem_cons.mp hc with rfl | hc
    · decide
    · obtain ⟨b, -, hb⟩ := List.mem_flatMap.mp hc
      have hlt := b.toNat_lt
      simp only [hexByte, List.mem_cons, List.not_mem_nil, or_false] at hb
      rcases hb with rfl | rfl
      · exact digitChar_mem_idChars (by omega)
      · exact digitChar_mem_idChars (by omega)

/-- No text that begins otherwise is an id. -/
theorem hashId_ne {x : List UInt8} {s : String} (h : s.toList.head? ≠ some 'n') : hashId x ≠ s := by
  rintro rfl
  exact h (by simp [hashId])

-- ---------------------------------------------------------------------------
-- The bytes an id is derived from
-- ---------------------------------------------------------------------------

/-- What may be the id of a parent: nothing for a root, else an id. -/
def ParentId (s : String) : Prop := s = "" ∨ ∃ x, s = hashId x

/-- The separator is in no id of a parent. -/
theorem separator_notMem_parentId {s : String} (h : ParentId s) : separator ∉ bytes s := by
  rcases h with rfl | ⟨x, rfl⟩
  · decide
  · exact separator_notMem_hashId x

/-- What stands before the first separator, and what after it, can be read off. -/
theorem append_separator_inj {xs ys xs' ys' : List UInt8} (hx : separator ∉ xs)
    (hx' : separator ∉ xs') (h : xs ++ separator :: ys = xs' ++ separator :: ys') :
    xs = xs' ∧ ys = ys' := by
  -- the first separator ends the first part, on either side
  induction xs generalizing xs' with
  | nil =>
    cases xs' with
    | nil => exact ⟨rfl, List.tail_eq_of_cons_eq h⟩
    | cons x xs' => exact absurd (List.head_eq_of_cons_eq h ▸ List.mem_cons_self) hx'
  | cons x xs ih =>
    cases xs' with
    | nil => exact absurd (List.head_eq_of_cons_eq h ▸ List.mem_cons_self) hx
    | cons x' xs' =>
      obtain ⟨hhead, htail⟩ := List.cons_eq_cons.mp h
      obtain ⟨hxs, hys⟩ := ih (fun hm => hx (List.mem_cons_of_mem _ hm))
        (fun hm => hx' (List.mem_cons_of_mem _ hm)) htail
      exact ⟨by rw [hhead, hxs], hys⟩

/-- The bytes an id is derived from determine the id of the parent and the index,
whatever the names of layers and functions are made of. -/
theorem idPreimage_inj {parentId parentId' layer layer' function function' : String}
    {index index' : Nat} (hparent : ParentId parentId) (hparent' : ParentId parentId')
    (h : idPreimage parentId layer function index =
      idPreimage parentId' layer' function' index') :
    parentId = parentId' ∧ index = index' := by
  have hshape : ∀ (p l f : String) (i : Nat), idPreimage p l f i =
      bytes p ++ separator ::
        (bytes l ++ separator :: (bytes f ++ separator ::
          (bytes (String.ofList (Nat.toDigits 10 i)) ++ [separator]))) := by
    intro p l f i
    simp [idPreimage, bytes, separator]
  -- the index is cut off from behind, since a function name may hold the separator
  have hdigits : ∀ i, separator ∉ (bytes (String.ofList (Nat.toDigits 10 i))).reverse := by
    intro i
    rw [List.mem_reverse]
    exact separator_notMem_bytes fun c hc => mem_idChars_of_mem_toDigits hc
  constructor
  · -- the parent's id stands before the first separator
    rw [hshape, hshape] at h
    exact bytes_inj (append_separator_inj (separator_notMem_parentId hparent)
      (separator_notMem_parentId hparent') h).1
  · -- the index stands before the last separator, so it is read from the end
    have hrev := congrArg List.reverse h
    simp only [hshape, List.reverse_append, List.reverse_cons, List.append_assoc, List.reverse_nil,
      List.nil_append, List.cons_append, List.cons.injEq, true_and] at hrev
    have hbytes := List.reverse_inj.mp (append_separator_inj (hdigits index) (hdigits index') hrev).1
    have hchars := String.ofList_injective (bytes_inj hbytes)
    rw [← Nat.ofDigitChars_ten_toDigits (n := index), hchars, Nat.ofDigitChars_ten_toDigits]

end PlanRunner.Plan
