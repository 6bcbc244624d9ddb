import AppletBundle.Text.Slice
import Mathlib.Data.List.Infix
import Mathlib.Data.Nat.Notation

/-!
# Offsets into the bytes of a text

A reader that counts bytes stands at an offset. The offsets between two characters are those at which
a rest of the text begins (`offset`), and for them everything is as it is for characters: the byte
there belongs to the first character of the rest (`byte?_narrow`, `exists_byte?_wide`), and a slice
between two of them is the text in between (`slice?_offset`).

A byte is given as the character with its number. That of a character below 128 is the character
itself, and all bytes of the other characters are at least 128. So a reader that looks for characters
below 128 only, and takes all other bytes alike, passes the bytes of a character as it would pass the
character (`eq_of_passes`).
-/

namespace AppletBundle.Text

/-! ### Bytes -/

/-- The UTF-8 form of a text, each byte as the character with its number. -/
def bytes (t : List Char) : List Char :=
  (t.flatMap String.utf8EncodeChar).map fun b ↦ Char.ofNat b.toNat

/-- The byte at an offset. -/
def byte? (t : List Char) (i : ℕ) : Option Char :=
  (bytes t)[i]?

theorem byteLength_cons (c : Char) (t : List Char) :
    byteLength (c :: t) = c.utf8Size + byteLength t := by
  have hfold : ∀ (t : List Char) (n : ℕ),
      t.foldl (fun n c ↦ n + c.utf8Size) n = n + byteLength t := by
    intro t
    induction t with
    | nil => exact fun _ ↦ rfl
    | cons c t ih =>
      intro n
      rw [byteLength, List.foldl_cons, List.foldl_cons, ih, ih (0 + c.utf8Size)]
      omega
  rw [byteLength, List.foldl_cons, hfold, Nat.zero_add]

theorem byteLength_append (t u : List Char) : byteLength (t ++ u) = byteLength t + byteLength u := by
  induction t with
  | nil => exact (Nat.zero_add _).symm
  | cons c t ih => rw [List.cons_append, byteLength_cons, byteLength_cons, ih, Nat.add_assoc]

theorem byteLength_pos {t : List Char} (h : t ≠ []) : 0 < byteLength t := by
  obtain ⟨c, rest, rfl⟩ := List.exists_cons_of_ne_nil h
  rw [byteLength_cons]
  exact Nat.add_pos_left c.utf8Size_pos _

theorem bytes_cons (c : Char) (t : List Char) : bytes (c :: t) = bytes [c] ++ bytes t := by
  simp [bytes]

theorem bytes_append (t u : List Char) : bytes (t ++ u) = bytes t ++ bytes u := by
  simp [bytes]

theorem length_bytes_singleton (c : Char) : (bytes [c]).length = c.utf8Size := by
  simp [bytes]

theorem length_bytes (t : List Char) : (bytes t).length = byteLength t := by
  induction t with
  | nil => rfl
  | cons c t ih =>
    rw [bytes_cons, List.length_append, byteLength_cons, ih, length_bytes_singleton]

theorem utf8Size_eq_one_iff {c : Char} : c.utf8Size = 1 ↔ c.toNat < 128 := by
  rw [Char.utf8Size_eq_one_iff, UInt32.le_iff_toNat_le, Nat.lt_succ_iff]
  rfl

theorem toNat_byte (b : UInt8) : (Char.ofNat b.toNat).toNat = b.toNat := by
  have hvalid : b.toNat.isValidChar := Or.inl (Nat.lt_trans b.toNat_lt (by decide))
  rw [Char.ofNat, dif_pos hvalid]
  rfl

/-- A character below 128 is its own byte. -/
theorem bytes_narrow {c : Char} (hc : c.toNat < 128) : bytes [c] = [c] := by
  have hencode : String.utf8EncodeChar c = [UInt8.ofNat c.toNat] :=
    if_pos (Nat.le_of_lt_succ hc)
  have hbyte : (UInt8.ofNat c.toNat).toNat = c.toNat :=
    Nat.mod_eq_of_lt (Nat.lt_trans hc (by decide))
  rw [bytes, List.flatMap_singleton, hencode, List.map_singleton, hbyte, Char.ofNat_toNat]

/-- The bytes of another character are at least 128. -/
theorem le_of_mem_bytes {c b : Char} (hc : 128 ≤ c.toNat) (hb : b ∈ bytes [c]) : 128 ≤ b.toNat := by
  have hencode : ∀ b ∈ String.utf8EncodeChar c, 128 ≤ b.toNat := by
    have hval : ¬ c.val.toNat ≤ 127 := Nat.not_le.2 hc
    rw [String.utf8EncodeChar, if_neg hval]
    split
    · simp only [List.mem_cons, List.not_mem_nil, or_false, forall_eq_or_imp, forall_eq,
        UInt8.toNat_ofNat']
      omega
    · split <;>
        simp only [List.mem_cons, List.not_mem_nil, or_false, forall_eq_or_imp, forall_eq,
          UInt8.toNat_ofNat'] <;>
        omega
  rw [bytes, List.flatMap_singleton, List.mem_map] at hb
  obtain ⟨b, hmem, rfl⟩ := hb
  rw [toNat_byte]
  exact hencode b hmem

/-! ### Offsets between characters -/

/-- The offset at which a rest of a text begins. -/
def offset (t rest : List Char) : ℕ :=
  byteLength t - byteLength rest

theorem offset_append (front rest : List Char) : offset (front ++ rest) rest = byteLength front := by
  rw [offset, byteLength_append, Nat.add_sub_cancel]

theorem offset_self (t : List Char) : offset t t = 0 :=
  Nat.sub_self _

theorem offset_nil (t : List Char) : offset t [] = byteLength t :=
  rfl

variable {t front rest : List Char} {c : Char}

theorem byteLength_le_of_suffix (h : rest <:+ t) : byteLength rest ≤ byteLength t := by
  obtain ⟨front, rfl⟩ := h
  rw [byteLength_append]
  exact Nat.le_add_left _ _

/-- The offset after a part of the text. -/
theorem offset_add (front rest : List Char) (h : front ++ rest <:+ t) :
    offset t (front ++ rest) + byteLength front = offset t rest := by
  have hle := byteLength_le_of_suffix h
  rw [byteLength_append] at hle
  rw [offset, offset, byteLength_append]
  omega

theorem offset_add_utf8Size (h : c :: rest <:+ t) :
    offset t (c :: rest) + c.utf8Size = offset t rest := by
  have hadd := offset_add [c] rest h
  rwa [List.singleton_append, byteLength_cons, byteLength, List.foldl_nil, Nat.add_zero] at hadd

theorem offset_succ (h : c :: rest <:+ t) (hc : c.toNat < 128) :
    offset t (c :: rest) + 1 = offset t rest := by
  rw [← offset_add_utf8Size h, utf8Size_eq_one_iff.2 hc]

theorem suffix_of_cons_suffix (h : c :: rest <:+ t) : rest <:+ t :=
  (List.suffix_cons c rest).trans h

/-- The bytes from the offset of a rest on are those of the rest. -/
theorem byte?_offset_add (h : rest <:+ t) (k : ℕ) :
    byte? t (offset t rest + k) = (bytes rest)[k]? := by
  obtain ⟨front, rfl⟩ := h
  rw [byte?, offset_append, bytes_append, ← length_bytes front, List.getElem?_append_right]
  · rw [Nat.add_sub_cancel_left]
  · exact Nat.le_add_right _ _

theorem byte?_eq_none {i : ℕ} (h : byteLength t ≤ i) : byte? t i = none := by
  rw [← length_bytes] at h
  exact List.getElem?_eq_none h

theorem byte?_offset_nil (t : List Char) : byte? t (offset t []) = none :=
  byte?_eq_none (Nat.le_of_eq (offset_nil t).symm)

theorem byte?_narrow (h : c :: rest <:+ t) (hc : c.toNat < 128) :
    byte? t (offset t (c :: rest)) = some c := by
  have hbyte := byte?_offset_add h 0
  rwa [bytes_cons, bytes_narrow hc] at hbyte

theorem exists_byte?_wide (h : c :: rest <:+ t) (hc : 128 ≤ c.toNat) {k : ℕ} (hk : k < c.utf8Size) :
    ∃ b, byte? t (offset t (c :: rest) + k) = some b ∧ 128 ≤ b.toNat := by
  have hlength : k < (bytes [c]).length := by rwa [length_bytes_singleton]
  refine ⟨(bytes [c])[k], ?_, le_of_mem_bytes hc (List.getElem_mem hlength)⟩
  rw [byte?_offset_add h, bytes_cons, List.getElem?_append_left hlength]
  exact List.getElem?_eq_getElem hlength

theorem lt_of_byte? {i : ℕ} {b : Char} (h : byte? t i = some b) : i < byteLength t := by
  rw [← length_bytes]
  exact (List.getElem?_eq_some_iff.1 h).1

theorem ne_of_wide {b c : Char} (hb : 128 ≤ b.toNat) (hc : c.toNat < 128) : b ≠ c := by
  rintro rfl
  exact absurd hb (Nat.not_le.2 hc)

/-- A byte below 128 is the next character. -/
theorem byte?_eq_some_iff (hc : c.toNat < 128) (h : rest <:+ t) :
    byte? t (offset t rest) = some c ↔ rest.head? = some c := by
  cases rest with
  | nil => rw [byte?_offset_nil, List.head?_nil]
  | cons d rest =>
    rcases Nat.lt_or_ge d.toNat 128 with hd | hd
    · rw [byte?_narrow h hd, List.head?_cons]
    · obtain ⟨b, hb, hwide⟩ := exists_byte?_wide h hd d.utf8Size_pos
      rw [Nat.add_zero] at hb
      rw [hb, List.head?_cons, Option.some_inj, Option.some_inj]
      exact iff_of_false (ne_of_wide hwide hc) (ne_of_wide hd hc)

/-- A reader passes a character that it does not look for, from any of its bytes. -/
theorem eq_of_passes {α : Type} {f : ℕ → α}
    (hf : ∀ i b, byte? t i = some b → 128 ≤ b.toNat → f i = f (i + 1)) (h : c :: rest <:+ t)
    (hc : 128 ≤ c.toNat) {k : ℕ} (hk : k ≤ c.utf8Size) :
    f (offset t (c :: rest) + k) = f (offset t rest) := by
  induction hk using Nat.decreasingInduction with
  | self => rw [offset_add_utf8Size h]
  | of_succ k hk ih =>
    obtain ⟨b, hb, hwide⟩ := exists_byte?_wide h hc hk
    rw [hf _ b hb hwide]
    exact ih

/-! ### Slices -/

theorem dropBytes?_append (front rest : List Char) :
    dropBytes? (byteLength front) (front ++ rest) = some rest := by
  induction front with
  | nil => cases rest <;> rfl
  | cons c front ih =>
    obtain ⟨n, hn⟩ := Nat.exists_eq_add_of_le'
      (Nat.le_add_right_of_le c.utf8Size_pos (k := byteLength front))
    rw [byteLength_cons, hn, List.cons_append, dropBytes?, if_pos (by omega), ← hn,
      Nat.add_sub_cancel_left]
    exact ih

theorem takeBytes?_append (front rest : List Char) (k : ℕ) :
    takeBytes? (byteLength front + k) (front ++ rest) = (takeBytes? k rest).map (front ++ ·) := by
  induction front with
  | nil =>
    rw [show byteLength [] + k = k from Nat.zero_add k]
    exact (Option.map_id' (x := takeBytes? k rest)).symm
  | cons c front ih =>
    obtain ⟨n, hn⟩ := Nat.exists_eq_add_of_le'
      (Nat.le_add_right_of_le c.utf8Size_pos (k := byteLength front + k))
    rw [byteLength_cons, Nat.add_assoc, hn, List.cons_append, takeBytes?, if_pos (by omega), ← hn,
      Nat.add_sub_cancel_left, ih, Option.map_map]
    rfl

/-- **A slice between two offsets is the text in between.** -/
theorem slice?_offset (h : front ++ rest <:+ t) :
    slice? t (offset t (front ++ rest)) (offset t rest) = some front := by
  have hadd := offset_add front rest h
  obtain ⟨before, rfl⟩ := h
  rw [slice?, if_pos (by omega), ← hadd, Nat.add_sub_cancel_left, offset_append,
    dropBytes?_append, Option.bind_some]
  cases rest <;> exact (takeBytes?_append front _ 0).trans (congrArg some (List.append_nil front))

theorem slice?_to_end (h : rest <:+ t) : slice? t (offset t rest) (byteLength t) = some rest := by
  have hend : rest ++ [] <:+ t := by rwa [List.append_nil]
  have hslice := slice?_offset hend
  rwa [List.append_nil, offset_nil] at hslice

theorem slice?_front (front rest : List Char) :
    slice? (front ++ rest) 0 (byteLength front) = some front := by
  have hslice := slice?_offset (List.suffix_refl (front ++ rest))
  rwa [offset_self, offset_append] at hslice

theorem slice?_back (front rest : List Char) :
    slice? (front ++ rest) (byteLength front) (byteLength (front ++ rest)) = some rest := by
  have hslice := slice?_to_end (List.suffix_append front rest)
  rwa [offset_append] at hslice

/-- The offset after some characters of a text. -/
def offsetAfter (t : List Char) (n : ℕ) : ℕ :=
  byteLength (t.take n)

theorem offsetAfter_length (front rest : List Char) :
    offsetAfter (front ++ rest) front.length = offset (front ++ rest) rest := by
  rw [offsetAfter, List.take_left, offset_append]

theorem offset_drop (t : List Char) (n : ℕ) : offset t (t.drop n) = offsetAfter t n := by
  have hoffset := offset_append (t.take n) (t.drop n)
  rwa [List.take_append_drop] at hoffset

theorem slice?_take (t : List Char) (n : ℕ) : slice? t 0 (offsetAfter t n) = some (t.take n) := by
  have hwhole : t.take n ++ t.drop n <:+ t := by rw [List.take_append_drop]
  have hslice := slice?_offset hwhole
  rwa [List.take_append_drop, offset_self, offset_drop] at hslice

theorem slice?_drop (t : List Char) (n : ℕ) :
    slice? t (offsetAfter t n) (byteLength t) = some (t.drop n) := by
  rw [← offset_drop]
  exact slice?_to_end (List.drop_suffix n t)

/-- A slice that ends one byte before the end of the text. -/
theorem slice?_before_end (h : front ++ [c] <:+ t) :
    slice? t (offset t (front ++ [c])) (byteLength t - 1) =
      if c.utf8Size = 1 then some front else none := by
  have hend : front ++ [c] ++ [] <:+ t := by rwa [List.append_nil]
  have hadd := offset_add (front ++ [c]) [] hend
  have hlength : byteLength (front ++ [c]) = byteLength front + c.utf8Size :=
    (byteLength_append _ _).trans (congrArg _ (byteLength_cons c []))
  rw [List.append_nil, offset_nil, hlength] at hadd
  obtain ⟨before, rfl⟩ := h
  have hpos := c.utf8Size_pos
  have hstop : byteLength (before ++ (front ++ [c])) - 1 -
      offset (before ++ (front ++ [c])) (front ++ [c]) = byteLength front + (c.utf8Size - 1) := by
    omega
  rw [slice?, if_pos (by omega), hstop, offset_append, dropBytes?_append, Option.bind_some,
    takeBytes?_append]
  split
  · rename_i hone
    rw [hone]
    exact congrArg some (List.append_nil front)
  · rename_i hone
    obtain ⟨k, hk⟩ := Nat.exists_eq_add_of_le' (show 1 ≤ c.utf8Size - 1 by omega)
    rw [hk, takeBytes?, if_neg (by omega)]
    rfl

theorem byteLength_of_dropBytes? {n : ℕ} (h : dropBytes? n t = some rest) :
    n + byteLength rest = byteLength t := by
  induction t generalizing n with
  | nil =>
    cases n with
    | zero =>
      obtain rfl := Option.some.inj h
      exact Nat.zero_add _
    | succ n => cases h
  | cons c t ih =>
    cases n with
    | zero =>
      obtain rfl := Option.some.inj h
      exact Nat.zero_add _
    | succ n =>
      rw [dropBytes?] at h
      split at h
      · have hrest := ih h
        rw [byteLength_cons]
        omega
      · cases h

theorem byteLength_of_takeBytes? {n : ℕ} (h : takeBytes? n t = some front) :
    byteLength front = n ∧ n ≤ byteLength t := by
  induction t generalizing n front with
  | nil =>
    cases n with
    | zero =>
      obtain rfl := Option.some.inj h
      exact ⟨rfl, Nat.zero_le _⟩
    | succ n => cases h
  | cons c t ih =>
    cases n with
    | zero =>
      obtain rfl := Option.some.inj h
      exact ⟨rfl, Nat.zero_le _⟩
    | succ n =>
      rw [takeBytes?] at h
      split at h
      · obtain ⟨front', hfront, rfl⟩ := Option.map_eq_some_iff.1 h
        obtain ⟨heq, hle⟩ := ih hfront
        rw [byteLength_cons, byteLength_cons]
        omega
      · cases h

/-- A slice has as many bytes as there are between its offsets. -/
theorem byteLength_of_slice? {start stop : ℕ} (h : slice? t start stop = some front) :
    start + byteLength front = stop ∧ stop ≤ byteLength t := by
  rw [slice?] at h
  split at h
  · obtain ⟨rest, hdrop, htake⟩ := Option.bind_eq_some_iff.1 h
    have hrest := byteLength_of_dropBytes? hdrop
    obtain ⟨heq, hle⟩ := byteLength_of_takeBytes? htake
    omega
  · cases h

/-! ### Cuts -/

/-- An offset lies in the text, and not inside a character. -/
def IsCut (t : List Char) (n : ℕ) : Prop :=
  (dropBytes? n t).isSome = true

instance (t : List Char) (n : ℕ) : Decidable (IsCut t n) :=
  inferInstanceAs (Decidable (_ = true))

theorem suffix_of_dropBytes? {n : ℕ} (h : dropBytes? n t = some rest) : rest <:+ t := by
  induction t generalizing n with
  | nil =>
    cases n with
    | zero => exact Option.some.inj h ▸ List.suffix_refl _
    | succ n => cases h
  | cons c t ih =>
    cases n with
    | zero => exact Option.some.inj h ▸ List.suffix_refl _
    | succ n =>
      rw [dropBytes?] at h
      split at h
      · exact (ih h).trans (List.suffix_cons c t)
      · cases h

/-- At a cut a rest of the text begins. -/
theorem IsCut.exists_rest {n : ℕ} (h : IsCut t n) : ∃ rest, rest <:+ t ∧ offset t rest = n := by
  obtain ⟨rest, hrest⟩ := Option.isSome_iff_exists.1 h
  refine ⟨rest, suffix_of_dropBytes? hrest, ?_⟩
  rw [offset, ← byteLength_of_dropBytes? hrest, Nat.add_sub_cancel]

theorem isCut_offset (h : rest <:+ t) : IsCut t (offset t rest) := by
  obtain ⟨front, rfl⟩ := h
  rw [IsCut, offset_append, dropBytes?_append]
  rfl

theorem isCut_byteLength (t : List Char) : IsCut t (byteLength t) := by
  rw [← offset_nil t]
  exact isCut_offset List.nil_suffix

theorem offset_le_of_suffix {more : List Char} (h : rest <:+ more) :
    offset t more ≤ offset t rest :=
  Nat.sub_le_sub_left (byteLength_le_of_suffix h) _

/-- A byte below 128 is a character, and so it stands between two cuts. -/
theorem exists_rest_of_byte? {i : ℕ} (h : byte? t i = some c) (hc : c.toNat < 128) :
    ∃ rest, c :: rest <:+ t ∧ offset t (c :: rest) = i := by
  induction t generalizing i with
  | nil => cases h
  | cons d t ih =>
    rcases Nat.lt_or_ge i d.utf8Size with hi | hi
    · -- the byte is one of the first character, which has no such byte if it has several
      rcases Nat.lt_or_ge d.toNat 128 with hd | hd
      · rw [utf8Size_eq_one_iff.2 hd, Nat.lt_one_iff] at hi
        rw [hi, ← offset_self (d :: t), byte?_narrow (List.suffix_refl _) hd] at h
        obtain rfl := Option.some.inj h
        exact ⟨t, List.suffix_refl _, hi ▸ offset_self _⟩
      · obtain ⟨b, hb, hwide⟩ := exists_byte?_wide (List.suffix_refl (d :: t)) hd hi
        rw [offset_self, Nat.zero_add, h] at hb
        exact absurd (Option.some.inj hb).symm (ne_of_wide hwide hc)
    · obtain ⟨j, rfl⟩ := Nat.exists_eq_add_of_le hi
      have hsuffix : t <:+ d :: t := List.suffix_cons d t
      have hstart : offset (d :: t) t = d.utf8Size := by
        rw [← offset_add_utf8Size (List.suffix_refl (d :: t)), offset_self, Nat.zero_add]
      rw [← hstart, byte?_offset_add hsuffix] at h
      obtain ⟨rest, hrest, rfl⟩ := ih h
      refine ⟨rest, hrest.trans hsuffix, ?_⟩
      have hle := byteLength_le_of_suffix hrest
      rw [offset, offset, byteLength_cons]
      omega

theorem isCut_succ_of_byte? {i : ℕ} (h : byte? t i = some c) (hc : c.toNat < 128) :
    IsCut t (i + 1) := by
  obtain ⟨rest, hrest, rfl⟩ := exists_rest_of_byte? h hc
  rw [offset_succ hrest hc]
  exact isCut_offset (suffix_of_cons_suffix hrest)

/-- **Between two cuts there is a slice.** -/
theorem isSome_slice? {start stop : ℕ} (hle : start ≤ stop) (hstart : IsCut t start)
    (hstop : IsCut t stop) : (slice? t start stop).isSome = true := by
  obtain ⟨long, hlong, rfl⟩ := hstart.exists_rest
  obtain ⟨short, hshort, rfl⟩ := hstop.exists_rest
  have hsuffix : short <:+ long := by
    rcases List.suffix_or_suffix_of_suffix hshort hlong with h | ⟨front, rfl⟩
    · exact h
    · -- both begin at the same offset, so the front is empty
      have hadd := offset_add front long hshort
      obtain rfl : front = [] := by
        by_contra hne
        have hpos := byteLength_pos hne
        omega
      exact List.suffix_refl long
  obtain ⟨front, rfl⟩ := hsuffix
  rw [slice?_offset hlong]
  rfl

end AppletBundle.Text
