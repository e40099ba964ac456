import Mathlib.Data.List.Basic
import Offside.Source.Input

/-!
# Texts as bytes

The bytes of a text in UTF-8 are decoded to the text, line by line. A byte that ends a line occurs
in them only where a line feed is encoded, so complete lines are decoded whatever bytes follow them.

## Main definitions

* `Offside.Source.utf8`: the bytes of a text.
* `Offside.Source.Input.prepend`: complete lines before an input.

## Main results

* `Offside.Source.Input.ofBytes_utf8_append`: the input that complete lines and further bytes give.
-/

namespace Offside.Source

variable {cs line : List Char} {c : Char}

/-- The bytes of a text in UTF-8. -/
def utf8 (text : List Char) : List UInt8 := text.flatMap String.utf8EncodeChar

/-- The input that starts with the complete lines `text`. -/
def Input.prepend (later : Input) (text : List Char) : Input := ⟨text ++ later.text, later.broken⟩

theorem utf8_append (xs ys : List Char) : utf8 (xs ++ ys) = utf8 xs ++ utf8 ys :=
  List.flatMap_append

/-- A text is decoded from its bytes. -/
theorem decodeLine_utf8 (cs : List Char) : decodeLine (utf8 cs) = some cs := by
  have hbytes : (⟨(utf8 cs).toArray⟩ : ByteArray) = cs.utf8Encode := by
    rw [List.utf8Encode, utf8]
    exact ByteArray.ext List.data_toByteArray.symm
  have hstring : String.fromUTF8 cs.utf8Encode ByteArray.isValidUTF8_utf8Encode = .ofList cs :=
    String.toByteArray_inj.1 String.toByteArray_ofList.symm
  rw [decodeLine, hbytes, String.fromUTF8?, dif_pos ByteArray.isValidUTF8_utf8Encode, hstring,
    Option.map_some, String.toList_ofList]

/-- Only a line feed is encoded with the byte that ends a line. -/
theorem not_mem_utf8EncodeChar (hc : c ≠ '\n') : 10 ∉ String.utf8EncodeChar c := by
  have hbyte {n : ℕ} (hn : n < 256) (h : (10 : UInt8) = UInt8.ofNat n) : n = 10 := by
    have := congrArg UInt8.toNat h
    rw [UInt8.toNat_ofNat', Nat.mod_eq_of_lt hn] at this
    exact this.symm
  have hval : c.val.toNat ≠ 10 := fun h => hc (Char.ext (UInt32.toNat_inj.1 h))
  -- A character of several bytes is encoded with bytes of 128 and more.
  rw [String.utf8EncodeChar]
  intro hmem
  split at hmem
  · exact hval (hbyte (by omega) (List.mem_singleton.1 hmem))
  · split at hmem
    · simp only [List.mem_cons, List.not_mem_nil, or_false] at hmem
      rcases hmem with h | h <;> have := hbyte (by omega) h <;> omega
    · split at hmem
      · simp only [List.mem_cons, List.not_mem_nil, or_false] at hmem
        rcases hmem with h | h | h <;> have := hbyte (by omega) h <;> omega
      · simp only [List.mem_cons, List.not_mem_nil, or_false] at hmem
        rcases hmem with h | h | h | h <;> have := hbyte (by omega) h <;> omega

theorem byteLines_append {line : List UInt8} (h : 10 ∉ line) (bytes : List UInt8) :
    byteLines (line ++ 10 :: bytes) = (line ++ [10]) :: byteLines bytes := by
  induction line with
  | nil => simp [byteLines]
  | cons b line ih =>
    have hb : b ≠ 10 := fun hb => h (hb ▸ List.mem_cons_self)
    have htail : 10 ∉ line := fun hmem => h (List.mem_cons_of_mem _ hmem)
    rw [List.cons_append, byteLines, if_neg hb, ih htail]
    rfl

/-- Complete lines are read whatever bytes follow them. -/
theorem Input.ofBytes_utf8_append {text : List Char} (ends : ∀ c ∈ text.getLast?, c = '\n')
    (bytes : List UInt8) :
    ofBytes (utf8 text ++ bytes) = (ofBytes bytes).prepend text := by
  induction hn : text.length using Nat.strongRecOn generalizing text with
  | _ n ih =>
    cases hlast : text.getLast? with
    | none =>
      obtain rfl := List.getLast?_eq_none_iff.1 hlast
      rfl
    | some c =>
      obtain rfl := ends c hlast
      obtain ⟨line, rest, rfl, hline⟩ := List.eq_append_cons_of_mem (List.mem_of_getLast? hlast)
      have hrest : ∀ c ∈ rest.getLast?, c = '\n' := by
        intro c hc
        refine ends c ?_
        rw [List.getLast?_append, List.getLast?_cons, show rest.getLast? = some c from hc]
        rfl
      have hlater := ih rest.length (hn ▸ by simp; omega) hrest rfl
      have hbytes : utf8 (line ++ '\n' :: rest) ++ bytes =
          utf8 line ++ 10 :: (utf8 rest ++ bytes) := by
        rw [utf8_append, List.append_assoc]
        rfl
      have hdecoded : decodeLine (utf8 line ++ [10]) = some (line ++ ['\n']) := by
        rw [← decodeLine_utf8, utf8_append]
        rfl
      have hfirst : 10 ∉ utf8 line := fun hmem => by
        obtain ⟨c, hc, hbyte⟩ := List.mem_flatMap.1 hmem
        exact not_mem_utf8EncodeChar (fun hnew => hline (hnew ▸ hc)) hbyte
      rw [ofBytes, hbytes, byteLines_append hfirst, ofByteLines, hdecoded]
      show Input.mk (line ++ ['\n'] ++ (ofBytes (utf8 rest ++ bytes)).text)
        (ofBytes (utf8 rest ++ bytes)).broken = _
      rw [hlater]
      simp [prepend]

end Offside.Source
