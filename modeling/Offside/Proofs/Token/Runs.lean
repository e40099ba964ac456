import Mathlib.Data.List.TakeWhile
import Offside.Proofs.Token.Abreast

/-!
# Runs of digits and dots

Where a token starts with a digit, or with a dot and a digit after it, the longest run of digits and
dots from there is one token, and all of it is used up. The run is an integer if it has no dot and its
value is below `2 ^ 63`, a floating-point number if it has exactly one dot, and refused otherwise. So
no end of a run is dropped or becomes a number of its own.

A token is known by its place: no two parts of a text from its start lead to the same place.

## Main definitions

* `Offside.Lexer.Found`: where a token is found, and in which characters.
* `Offside.Lexeme.StartsWith`: a token that starts at a given point of the text.
* `Offside.Kind.IsRunOf`: what a run of digits and dots is read as.

## Main results

* `Offside.Location.eq_of_after`: what has been read is known by the place.
* `Offside.Token.isRunOf_numberKind`: the kind of a run of digits and dots.
* `Offside.Lexer.run_of_startsNumber`: a token that starts as a number is the whole run.
-/

namespace Offside

open Source Token
open scoped Binary64

/-! ### Places -/

namespace Location

/-- Reading leads to another place. -/
theorem eq_nil_of_after {place : Location} {cs : List Char} (h : place.after cs = place) :
    cs = [] := by
  have hline := line_after place cs
  have hn : '\n' ∉ cs := List.count_eq_zero.1 (by rw [h] at hline; omega)
  have hcolumn := congrArg Location.column (after_of_line hn ▸ h)
  exact List.eq_nil_of_length_eq_zero (by simpa using hcolumn)

/-- What has been read of a text is known by the place that it leads to. -/
theorem eq_of_after {place : Location} {xs ys more more' : List Char}
    (htext : xs ++ more = ys ++ more') (h : place.after xs = place.after ys) : xs = ys := by
  rcases List.append_eq_append_iff.1 htext with ⟨zs, rfl, -⟩ | ⟨zs, rfl, -⟩
  · rw [after_append] at h
    rw [eq_nil_of_after h.symm, List.append_nil]
  · rw [after_append] at h
    rw [eq_nil_of_after h, List.append_nil]

theorem following_injective {a b : Location} (h : a.following = b.following) : a = b := by
  obtain ⟨line, column⟩ := a
  obtain ⟨line', column'⟩ := b
  simpa [following] using h

end Location

/-! ### What a run is read as -/

namespace Number

variable {run whole fraction : List Char}

/-- A run of digits denotes an integer, unless this is out of bounds. -/
theorem ofRun?_digits (h : ∀ c ∈ run, c.isDigit) (hne : run ≠ []) :
    ofRun? run =
      if Nat.ofDigitChars 10 run 0 < 2 ^ (63 : Nat) then some (.int (Nat.ofDigitChars 10 run 0))
      else none := by
  rw [ofRun?, List.dropWhile_eq_nil_iff.2 h]
  dsimp only
  rw [List.takeWhile_eq_self_iff.2 h]
  exact if_congr (and_iff_right hne) rfl rfl

/-- Of a run with a dot the first one is the point, and only digits may follow. -/
theorem ofRun?_point (h : ∀ c ∈ whole, c.isDigit) (hne : whole ++ fraction ≠ []) :
    ofRun? (whole ++ '.' :: fraction) =
      if fraction.all Char.isDigit then
        some (.float
          (Binary64.ofRatio (Nat.ofDigitChars 10 (whole ++ fraction) 0) (10 ^ fraction.length)))
      else none := by
  obtain ⟨htake, hdrop⟩ :=
    takeWhile_append_stop (p := Char.isDigit) (d := '.') (by decide) whole fraction
  rw [List.takeWhile_eq_self_iff.2 h] at htake
  rw [List.dropWhile_eq_nil_iff.2 h, List.nil_append] at hdrop
  rw [ofRun?, hdrop]
  dsimp only
  rw [htake]
  exact if_congr (and_iff_left hne) rfl rfl

end Number

/-- What a run of digits and dots is read as. -/
structure Kind.IsRunOf (kind : Kind) (run : List Char) : Prop where
  integer (noPoint : run.count '.' = 0) (small : Nat.ofDigitChars 10 run 0 < 2 ^ (63 : Nat)) :
    kind = .number (String.ofList run) (.int (Nat.ofDigitChars 10 run 0))
  float (onePoint : run.count '.' = 1) : ∃ whole fraction, run = whole ++ '.' :: fraction ∧
    kind = .number (String.ofList run) (.float
      (Binary64.ofRatio (Nat.ofDigitChars 10 (whole ++ fraction) 0) (10 ^ fraction.length)))
  refused (large : run.count '.' = 0 → 2 ^ (63 : Nat) ≤ Nat.ofDigitChars 10 run 0)
    (points : run.count '.' ≠ 1) : kind = .invalid (.badNumber (String.ofList run))

namespace Token

theorem isDigit_of_isNumberChar {c : Char} (h : isNumberChar c) (hc : c ≠ '.') : c.isDigit := by
  simpa [isNumberChar, hc] using h

/-- Digits have no dot among them. -/
theorem count_point_eq_zero_iff {cs : List Char} (h : ∀ c ∈ cs, isNumberChar c) :
    cs.count '.' = 0 ↔ ∀ c ∈ cs, c.isDigit := by
  rw [List.count_eq_zero]
  refine ⟨fun hn c hc => isDigit_of_isNumberChar (h c hc) ?_, fun hdigits hmem => ?_⟩
  · rintro rfl
    exact hn hc
  · exact absurd (hdigits '.' hmem) (by decide)

/-- The kind of a run of digits and dots with a digit in it. -/
theorem isRunOf_numberKind {run : List Char} (hrun : ∀ c ∈ run, isNumberChar c)
    (hdigit : ∃ c ∈ run, c.isDigit) : (numberKind run).IsRunOf run := by
  obtain ⟨d, hd, hdigit⟩ := hdigit
  by_cases hpoint : '.' ∈ run
  · -- The run is cut at its first dot, which is the only one if the rest are digits.
    obtain ⟨whole, fraction, rfl, hfirst⟩ := List.eq_append_cons_of_mem hpoint
    obtain ⟨hwhole, hrest⟩ := List.forall_mem_append.1 hrun
    have hfraction := (List.forall_mem_cons.1 hrest).2
    have hnone := List.count_eq_zero.2 hfirst
    have hne : whole ++ fraction ≠ [] := by
      rintro hempty
      obtain ⟨rfl, rfl⟩ := List.append_eq_nil_iff.1 hempty
      obtain rfl : d = '.' := by simpa using hd
      exact absurd hdigit (by decide)
    have hvalue := Number.ofRun?_point ((count_point_eq_zero_iff hwhole).1 hnone) hne
    have hcount : (whole ++ '.' :: fraction).count '.' = fraction.count '.' + 1 := by
      rw [List.count_append, List.count_cons_self, hnone, Nat.zero_add]
    have hall : fraction.all Char.isDigit ↔ fraction.count '.' = 0 := by
      rw [List.all_eq_true, count_point_eq_zero_iff hfraction]
    refine ⟨fun noPoint => ?_, fun onePoint => ⟨whole, fraction, rfl, ?_⟩, fun _ points => ?_⟩
    · omega
    · rw [numberKind, hvalue, if_pos (hall.2 (by omega))]
    · rw [numberKind, hvalue, if_neg (mt hall.1 (by omega))]
  · have hcount := List.count_eq_zero.2 hpoint
    have hdigits := (count_point_eq_zero_iff hrun).1 hcount
    have hvalue := Number.ofRun?_digits hdigits (List.ne_nil_of_mem hd)
    refine ⟨fun _ small => ?_, fun onePoint => ?_, fun large _ => ?_⟩
    · rw [numberKind, hvalue, if_pos small]
    · omega
    · rw [numberKind, hvalue, if_neg (Nat.not_lt.2 (large hcount))]

/-- A number starts with a digit or a dot, and the run from there has a digit. -/
theorem isRunOf_tokenOf {c : Char} {cs : List Char} (h : startsNumber c cs) :
    (tokenOf c cs).2 = (c :: cs).dropWhile isNumberChar ∧
      (tokenOf c cs).1.IsRunOf ((c :: cs).takeWhile isNumberChar) := by
  have hstart : isNumberChar c ∧ c ≠ quote ∧
      ∃ d ∈ (c :: cs).takeWhile isNumberChar, d.isDigit := by
    have htake (d : Char) (ds : List Char) (hd : d.isDigit) :
        d ∈ (d :: ds).takeWhile isNumberChar := by
      rw [List.takeWhile_cons_of_pos (by simp [isNumberChar, hd])]
      exact List.mem_cons_self
    rcases Bool.or_eq_true_iff.1 h with hc | hdot
    · refine ⟨by simp [isNumberChar, hc], ?_, c, htake c cs hc, hc⟩
      rintro rfl
      exact absurd hc (by decide)
    · obtain ⟨rfl, hnext⟩ : c = '.' ∧ cs.head?.any Char.isDigit := by simpa using hdot
      cases cs with
      | nil => cases hnext
      | cons d ds =>
        have hd : d.isDigit := hnext
        refine ⟨rfl, by decide, d, ?_, hd⟩
        rw [List.takeWhile_cons_of_pos rfl]
        exact List.mem_cons_of_mem _ (htake d ds hd)
  obtain ⟨-, hquote, hdigit⟩ := hstart
  rw [tokenOf, if_neg hquote, if_pos h, numberOf]
  exact ⟨rfl, isRunOf_numberKind (List.all_eq_true.1 List.all_takeWhile) hdigit⟩

end Token

/-! ### Where tokens are found -/

namespace Lexer

/-- Where the token `x` is found by reading the stream `s` on. It stands after some characters, and
takes a comment or nothing, or else it is found at the head of the characters there. -/
inductive Found (s : Stream) (x : Lexeme) : Prop
  | unwritten {gap used : List Char} (reads : s.Reads (gap ++ used) x.after.stream)
    (location : x.token.location = (s.location.after gap).following)
    (comment : ∀ c ∈ used.head?, c = '#')
  | scanned {gap used cs : List Char} {c : Char} (reads : s.Reads (gap ++ used) x.after.stream)
    (location : x.token.location = (s.location.after gap).following)
    (characters : used ++ x.after.stream.remaining = c :: cs)
    (token : tokenOf c cs = (x.token.kind, x.after.stream.remaining))

variable {l : Lexer} {s t : Stream} {x : Lexeme}

/-- The same as seen from before some more characters. -/
theorem Found.of_reads {before : List Char} (h : Found t x) (hread : s.Reads before t) :
    Found s x := by
  have hlocation (gap : List Char) :
      t.location.after gap = s.location.after (before ++ gap) := by
    rw [hread.location, Location.after_append]
  cases h with
  | unwritten reads location comment =>
    rw [hlocation] at location
    exact .unwritten (by simpa using hread.trans reads) location comment
  | scanned reads location characters token =>
    rw [hlocation] at location
    exact .scanned (by simpa using hread.trans reads) location characters token

/-- Nothing is taken by a token that stands before what is left. -/
theorem found_of_location {gap : List Char} (reads : s.Reads gap x.after.stream)
    (location : x.token.location = x.after.stream.location.following) : Found s x := by
  rw [← List.append_nil gap] at reads
  exact .unwritten reads (by rw [location, reads.location, List.append_nil]) (by simp)

theorem found_finish {place : Location} {used : List Char} (reads : s.Reads used l.stream)
    (location : place = s.location.following) (comment : ∀ c ∈ used.head?, c = '#') :
    Found s (l.finish place) := by
  rw [← List.nil_append used] at reads
  rw [finish]
  split
  · exact .unwritten reads location comment
  · exact .unwritten reads location comment

theorem found_inLine (hs : l.stream.LineWise) : Found l.stream l.inLine := by
  have hgap := Stream.reads_takeWhile isGap hs
  have hfill := Stream.fill_takeWhile isGap hs
  unfold inLine
  dsimp only
  generalize (l.stream.takeWhile isGap).2 = t at *
  refine Found.of_reads ?_ hgap
  cases hp : t.peek with
  | none => exact found_finish (.refl hgap.lineWise) rfl (by simp)
  | some c =>
    dsimp only
    split
    · next hn =>
      subst hn
      exact found_of_location (Stream.reads_skip hgap.lineWise hp) rfl
    · next hn =>
      split
      · next hc =>
        subst hc
        rcases reads_skipComment hgap.lineWise with ⟨_, -, hb, hread⟩ | ⟨-, hb, hread⟩
        · rw [if_pos hb]
          exact found_of_location hread rfl
        · rw [hb, if_neg Bool.false_ne_true]
          refine found_finish hread rfl ?_
          rw [Stream.remaining_eq_cons hp, List.takeWhile_cons_of_pos (by decide)]
          rintro _ ⟨⟩
          rfl
      · have hagree := agrees_scan hgap.lineWise hfill hp hn
        obtain ⟨used, -, hread⟩ := hagree.reads
        rw [← List.nil_append used] at hread
        refine .scanned hread rfl ?_ (Prod.ext hagree.kind.symm hagree.rest.symm)
        rw [← Stream.remaining_eq_cons hp, hread.remaining, List.nil_append]
        rfl

theorem found_read (hs : l.stream.LineWise) : Found l.stream l.read := by
  obtain ⟨used, hcontent⟩ := reads_firstContent hs
  have hread := readCases_read l
  generalize l.read = x at *
  cases hread with
  | dedent => exact found_of_location (.refl hs) rfl
  | within => exact found_inLine hs
  | first _ stream =>
    rw [← stream] at hcontent
    exact (found_inLine hcontent.lineWise).of_reads hcontent
  | layout stream location =>
    rw [← stream] at hcontent
    exact found_of_location hcontent location

theorem found_of_mem_lexemes (hs : l.stream.LineWise) (hx : x ∈ l.lexemes) :
    Found l.stream x := by
  obtain ⟨m, ⟨before, hread⟩, htoken, hafter⟩ :=
    exists_read (I := fun m => ∃ before, l.stream.Reads before m.stream) ⟨[], .refl hs⟩
      (fun m ⟨before, hread⟩ =>
        have ⟨more, hmore, _⟩ := reads_read hread.lineWise
        ⟨_, hread.trans hmore⟩) hx
  have hfound := (found_read hread.lineWise).of_reads hread
  cases hfound with
  | unwritten reads location comment =>
    rw [← htoken] at location
    rw [← hafter] at reads
    exact .unwritten reads location comment
  | scanned reads location characters token =>
    rw [← htoken] at location token
    rw [← hafter] at reads characters token
    exact .scanned reads location characters token

end Lexer

/-! ### Tokens that start as numbers -/

/-- The token `x` starts with the first of the characters `cs`, which come after the characters
`before` of a text: it stands where that character stands, and it takes it. -/
structure Lexeme.StartsWith (x : Lexeme) (before cs : List Char) : Prop where
  place : x.token.location = (Location.start.after before).following
  taken : x.after.stream.remaining.length < cs.length

namespace Lexer

variable {input : Input} {x : Lexeme} {before cs : List Char} {c : Char}

/-- A token is found at the head of the characters with which it starts, and the text has been read
up to its end. -/
theorem exists_tokenOf_of_startsWith (hx : x ∈ (ofInput input).lexemes)
    (htext : normalise input.text = before ++ c :: cs) (hstarts : x.StartsWith before (c :: cs))
    (hc : c ≠ '#') :
    tokenOf c cs = (x.token.kind, x.after.stream.remaining) ∧
      ∃ used, c :: cs = used ++ x.after.stream.remaining ∧
        x.after.stream.location = Location.start.after (before ++ used) := by
  have hs : (ofInput input).stream.LineWise := Stream.lineWise_ofInput input
  -- The place of the token tells how much of the text comes before it.
  have here {gap used : List Char}
      (reads : (ofInput input).stream.Reads (gap ++ used) x.after.stream)
      (location : x.token.location =
        ((ofInput input).stream.location.after gap).following) :
      before = gap ∧ c :: cs = used ++ x.after.stream.remaining := by
    have hsplit : normalise input.text = gap ++ (used ++ x.after.stream.remaining) := by
      rw [← List.append_assoc]
      exact reads.remaining
    rw [htext] at hsplit
    have hplace := Location.following_injective (hstarts.place.symm.trans location)
    obtain rfl := Location.eq_of_after hsplit hplace
    exact ⟨rfl, List.append_cancel_left hsplit⟩
  cases found_of_mem_lexemes hs hx with
  | @unwritten gap used reads location comment =>
    obtain ⟨rfl, hcs⟩ := here reads location
    have htaken := hstarts.taken
    cases used with
    | nil => simp [hcs] at htaken
    | cons d ds => exact absurd (comment d rfl) ((List.cons.inj hcs).1 ▸ hc)
  | @scanned gap used ds d reads location characters token =>
    obtain ⟨rfl, hcs⟩ := here reads location
    obtain ⟨rfl, rfl⟩ := List.cons.inj (hcs.trans characters)
    exact ⟨token, used, hcs, reads.location⟩

/-- A token that starts with a digit, or with a dot and a digit after it, is the longest run of digits
and dots from there. It is an integer with the value of the run if this has no dot and is below
`2 ^ 63`, a floating-point number if the run has exactly one dot, and refused otherwise. Always the
whole run is used up and nothing else. -/
theorem run_of_startsNumber (hx : x ∈ (ofInput input).lexemes)
    (htext : normalise input.text = before ++ c :: cs) (hstarts : x.StartsWith before (c :: cs))
    (hnumber : startsNumber c cs) :
    let run := (c :: cs).takeWhile isNumberChar
    x.token.kind.IsRunOf run ∧ x.after.stream.remaining = (c :: cs).dropWhile isNumberChar ∧
      x.after.stream.location = Location.start.after (before ++ run) := by
  intro run
  have hc : c ≠ '#' := by
    rintro rfl
    exact absurd hnumber (by simp [startsNumber])
  obtain ⟨htoken, used, hsplit, hlocation⟩ :=
    exists_tokenOf_of_startsWith hx htext hstarts hc
  obtain ⟨hrest, hkind⟩ := isRunOf_tokenOf hnumber
  rw [htoken] at hrest hkind
  dsimp only at hrest hkind
  have hrun : run ++ x.after.stream.remaining = c :: cs := by
    rw [hrest]
    exact List.takeWhile_append_dropWhile
  obtain rfl : used = run := List.append_cancel_right (hsplit.symm.trans hrun.symm)
  exact ⟨hkind, hrest, hlocation⟩

/-- The first and the third token of a line: an integer with zeros before it, and a run with two dots,
which is refused as a whole. -/
theorem run_of_startsNumber_twoDots :
    let input : Input := ⟨"0042 = 1.5.\r\n".toList, false⟩
    ∃ x y, (ofInput input).lexemes[0]? = some x ∧ (ofInput input).lexemes[2]? = some y ∧
      x.token.kind = .number "0042" (.int 42) ∧
      x.after.stream.remaining = " = 1.5.\n".toList ∧
      y.token.kind = .invalid (.badNumber "1.5.") ∧ y.after.stream.remaining = ['\n'] := by
  intro input
  let seen (x : Lexeme) := (x.token.location, x.after.stream.remaining.length)
  have hfirst : (ofInput input).lexemes[0]?.map seen = some (⟨1, 1⟩, 8) := by decide +kernel
  have hthird : (ofInput input).lexemes[2]?.map seen = some (⟨1, 8⟩, 1) := by decide +kernel
  obtain ⟨x, hx, hseen⟩ := Option.map_eq_some_iff.1 hfirst
  obtain ⟨y, hy, hseen'⟩ := Option.map_eq_some_iff.1 hthird
  obtain ⟨hplace, hleft⟩ := Prod.ext_iff.1 hseen
  obtain ⟨hplace', hleft'⟩ := Prod.ext_iff.1 hseen'
  have htext : normalise input.text = [] ++ '0' :: "042 = 1.5.\n".toList := by decide
  have htext' : normalise input.text = "0042 = ".toList ++ '1' :: ".5.\n".toList := by decide
  have hrun := run_of_startsNumber (List.mem_of_getElem? hx) htext
    ⟨hplace, hleft.trans_lt (by decide)⟩ rfl
  have hrun' := run_of_startsNumber (List.mem_of_getElem? hy) htext'
    ⟨hplace', hleft'.trans_lt (by decide)⟩ rfl
  exact ⟨x, y, hx, hy, hrun.1.integer (by decide) (by decide), hrun.2.1,
    hrun'.1.refused (by decide) (by decide), hrun'.2.1⟩

end Lexer

end Offside
