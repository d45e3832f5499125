import Djogi.Sql
import Djogi.Lib.Quoted

/-!
# Quoting

What the server reads from the identifiers and literals of `migrate/sql.rs`. The texts of names and
labels are walked byte by byte, and every byte is written as a character of its own; comments are
walked character by character.

* `lexes_quoteIdent_iff`, `lexes_quoteStringLiteral_iff`: names and labels are read back when they
  are of ASCII;
* `lexes_renderCommentLiteral`: comments are always read back.
-/

namespace Djogi

open Postgres

def IsAscii (s : String) : Prop := ∀ c ∈ s.toList, c.toNat < 128

/-- The text that stands between the quotes when nothing in it is doubled. -/
def bytesAsChars (s : String) : List Char := (utf8 s).map byteChar

/-- Every encoder writes one token, and the server reads the text from it. -/
def QuotingRoundTrips (s : String) : Prop :=
  Lexes readIdentifier (quoteIdent s).toList s.toList ∧
    Lexes readStandard (quoteStringLiteral s).toList s.toList ∧
      Lexes readExtended (renderCommentLiteral s).toList s.toList

/-! ## Bytes and characters -/

theorem utf8_eq (s : String) : utf8 s = s.toList.flatMap String.utf8EncodeChar := by
  have hbytes : s.toUTF8 = (s.toList.flatMap String.utf8EncodeChar).toByteArray :=
    String.utf8Encode_toList.symm
  rw [utf8, hbytes]
  simp

theorem ascii_utf8Size (c : Char) : c.utf8Size = 1 ↔ c.toNat < 128 := by
  rw [Char.utf8Size_eq_one_iff, UInt32.le_iff_toNat_le]
  exact Nat.lt_succ_iff.symm

theorem byteChar_ascii (c : Char) (h : c.toNat < 128) :
    (String.utf8EncodeChar c).map byteChar = [c] := by
  rw [String.utf8EncodeChar_eq_singleton ((ascii_utf8Size c).mpr h), List.map_singleton, byteChar]
  congr 1
  have hnat : c.val.toUInt8.toNat = c.toNat := by
    rw [UInt32.toNat_toUInt8]
    exact Nat.mod_eq_of_lt (Nat.lt_trans h (by omega))
  rw [hnat, Char.ofNat_toNat]

/-- A text is as long as its bytes when all of it is of ASCII only. -/
theorem ascii_of_length (l : List Char)
    (h : (l.flatMap String.utf8EncodeChar).length ≤ l.length) : ∀ c ∈ l, c.toNat < 128 := by
  have hle (l : List Char) : l.length ≤ (l.flatMap String.utf8EncodeChar).length := by
    induction l with
    | nil => exact Nat.le_refl 0
    | cons c l ih =>
      have hpos := c.utf8Size_pos
      rw [List.flatMap_cons, List.length_append, String.length_utf8EncodeChar, List.length_cons]
      omega
  induction l with
  | nil => simp
  | cons c l ih =>
    have hpos := c.utf8Size_pos
    have htail := hle l
    rw [List.flatMap_cons, List.length_append, String.length_utf8EncodeChar,
      List.length_cons] at h
    rintro d (_ | ⟨_, hd⟩)
    · exact (ascii_utf8Size c).mp (by omega)
    · exact ih (by omega) d hd

/-- **The bytes read as characters** are the text when it is of ASCII. -/
theorem bytesAsChars_iff (s : String) : bytesAsChars s = s.toList ↔ IsAscii s := by
  rw [bytesAsChars, utf8_eq]
  refine ⟨fun h => ascii_of_length s.toList ?_, fun h => ?_⟩
  · rw [← List.length_map byteChar, h]
  · rw [List.map_flatMap]
    have hall : ∀ l : List Char, (∀ c ∈ l, c.toNat < 128) →
        l.flatMap (fun c => (String.utf8EncodeChar c).map byteChar) = l := by
      intro l hl
      induction l with
      | nil => rfl
      | cons c l ih =>
        rw [List.flatMap_cons, byteChar_ascii c (hl c List.mem_cons_self),
          ih fun d hd => hl d (List.mem_cons_of_mem _ hd)]
        rfl
    exact hall s.toList h

/-! ## Encoders -/

theorem quoteBytes_toList (quote : Char) (s : String) :
    (quoteBytes quote s).toList = quote ::
      ((bytesAsChars s).flatMap (fun c => if c = quote then [quote, quote] else [c]) ++
        [quote]) := by
  rw [quoteBytes, String.toList_ofList, bytesAsChars, List.flatMap_map]
  rfl

theorem renderCommentLiteral_toList (s : String) :
    (renderCommentLiteral s).toList = 'E' :: '\'' :: (s.toList.flatMap (fun c =>
      if c = '\'' then ['\'', '\''] else if c = '\\' then ['\\', '\\'] else [c]) ++ ['\'']) := by
  simp [renderCommentLiteral]

theorem utf8ByteSize_eq (s : String) :
    s.utf8ByteSize = (s.toList.flatMap String.utf8EncodeChar).length := by
  rw [← utf8_eq, utf8]
  simp

/-- **Names** of ASCII are read back up to the length that the server keeps. -/
theorem lexes_quoteIdent_iff (s : String) (h : IsAscii s) :
    Lexes readIdentifier (quoteIdent s).toList s.toList ↔ s ≠ "" ∧ s.utf8ByteSize ≤ 63 := by
  have hread := readQuoted_double '"' s.toList
  rw [quoteIdent, quoteBytes_toList, (bytesAsChars_iff s).mpr h, utf8ByteSize_eq, ← clip_eq_self]
  refine ⟨fun ⟨_, hident⟩ => ?_, fun ⟨hne, hclip⟩ => ?_⟩
  · simp only [readIdentifier, List.head?_cons, if_true, List.tail_cons, hread] at hident
    obtain ⟨p, hp, hvalue⟩ := Option.map_eq_some_iff.mp hident
    obtain ⟨heq, hne⟩ := Option.filter_eq_some_iff.mp hp
    cases heq
    refine ⟨fun hs => ?_, (Prod.mk.inj hvalue).1⟩
    rw [hs] at hne
    cases hne
  · exact lexes_identifier _ _ (fun hnil => hne (String.toList_eq_nil_iff.mp hnil)) hclip hread

theorem lexes_quoteStringLiteral_iff (s : String) :
    Lexes readStandard (quoteStringLiteral s).toList s.toList ↔ IsAscii s := by
  have hread := readQuoted_double '\'' (bytesAsChars s)
  rw [quoteStringLiteral, quoteBytes_toList, ← bytesAsChars_iff]
  refine ⟨fun ⟨_, h⟩ => ?_, fun heq => ?_⟩
  · simp only [readStandard, List.head?_cons, if_true, List.tail_cons, hread] at h
    exact (Prod.mk.inj (Option.some.inj h)).1
  · rw [heq] at hread ⊢
    exact lexes_standard _ _ hread

theorem lexes_renderCommentLiteral (s : String) :
    Lexes readExtended (renderCommentLiteral s).toList s.toList := by
  rw [renderCommentLiteral_toList]
  exact lexes_extended _ _ (readEscape_double s.toList)

/-- **Quoting round trips** for the texts of ASCII that are not empty and no longer than a name. -/
theorem quotingRoundTrips_iff (s : String) :
    QuotingRoundTrips s ↔ s ≠ "" ∧ IsAscii s ∧ s.utf8ByteSize ≤ 63 := by
  rw [QuotingRoundTrips, lexes_quoteStringLiteral_iff]
  have hcomment := lexes_renderCommentLiteral s
  constructor
  · rintro ⟨hident, hascii, -⟩
    obtain ⟨hne, hlength⟩ := (lexes_quoteIdent_iff s hascii).mp hident
    exact ⟨hne, hascii, hlength⟩
  · rintro ⟨hne, hascii, hlength⟩
    exact ⟨(lexes_quoteIdent_iff s hascii).mpr ⟨hne, hlength⟩, hascii, hcomment⟩

/-- Neither a name nor a label with an accent is read back, though it has no NUL. -/
theorem quoting_accent :
    '\x00' ∉ "é".toList ∧ ¬ QuotingRoundTrips "é" ∧
      readIdentifier (quoteIdent "é").toList = some ("Ã©".toList, []) ∧
        readStandard (quoteStringLiteral "é").toList = some ("Ã©".toList, []) := by
  refine ⟨by decide, ?_, by decide +kernel, by decide +kernel⟩
  rintro ⟨-, hlabel, -⟩
  have hascii := (lexes_quoteStringLiteral_iff "é").mp hlabel
  exact absurd (hascii 'é' (by decide)) (by decide)

end Djogi
