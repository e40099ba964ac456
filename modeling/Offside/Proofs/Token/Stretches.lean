import Offside.Proofs.Token.Down

/-!
# The characters of tokens

Where no character is refused, nothing of a text is lost by cutting it into tokens. Each word, number
and sign has a stretch of the text to itself, which starts where the token stands and spells the
token. The stretches follow one another as the tokens do, and between them there is nothing but blanks,
line feeds and comments.

## Main definitions

* `Offside.Kind.Stretch`: the characters that a token may have to itself.
* `Offside.Kind.continuedBy`: the characters that would belong to a token if they followed it.
* `Offside.Token.Skipped`: characters that belong to no token.
* `Offside.Token.Falls`: a text falls into the stretches of its tokens.

## Main results

* `Offside.Token.spelled_tokenOf`: what is found at the head of some characters is spelled by them.
* `Offside.Lexer.takes_read`: what a token takes of the text.
* `Offside.Lexer.falls_ofInput`: a text falls into the stretches of its tokens.
-/

namespace Offside

open Source Token

/-! ### Stretches -/

/-- The characters that spell a token: the spelling of a reserved word or of a sign, the name of an
identifier, digits with their value, and a character or an escape between quotes, with the code of the
character. -/
inductive Kind.Stretch : Kind → List Char → Prop
  | identifier (name : String) : Stretch (.identifier name) name.toList
  | keyword (word : Keyword) : Stretch (.keyword word) word.spelling.toList
  | symbol (sign : Symbol) : Stretch (.symbol sign) sign.spelling.toList
  | digits {text : String} {value : Number} (run : text.toList.all isNumberChar)
      (hvalue : Number.ofRun? text.toList = some value) : Stretch (.number text value) text.toList
  | quoted (text : String) {c : Char} (plain : c ≠ quote ∧ c ≠ '\\' ∧ c ≠ '\n') :
      Stretch (.number text (.int c.toNat)) [quote, c, quote]
  | escaped (text : String) {letter c : Char} (escape : unescape? letter = some c) :
      Stretch (.number text (.int c.toNat)) [quote, '\\', letter, quote]

/-- Characters that would belong to a token with the stretch `used` if they followed it: those of words
after a word, digits and dots after digits. -/
def Kind.continuedBy (kind : Kind) (used : List Char) (c : Char) : Bool :=
  match kind with
  | identifier _ | keyword _ => isWordChar c
  | number _ _ => used.head? ≠ some quote && isNumberChar c
  | _ => false

/-- Kinds of token that have no characters to themselves: ends of lines and of the input, and the
blocks that margins open and close. -/
def Kind.isUnwritten : Kind → Bool
  | endOfInput | endOfLine | indent | dedent => true
  | _ => false

namespace Token

/-- Characters that belong to no token: blanks, line feeds, and comments up to the end of their line.
What follows them is `more`. -/
inductive Skipped (more : List Char) : List Char → Prop
  | nil : Skipped more []
  | blank {c : Char} {gap : List Char} (hc : Text.isBlank c) (h : Skipped more gap) :
    Skipped more (c :: gap)
  | comment {body gap : List Char} (line : '\n' ∉ body)
    (ends : gap ++ more = [] ∨ (gap ++ more).head? = some '\n') (h : Skipped more gap) :
    Skipped more ('#' :: (body ++ gap))

/-- The characters `cs` of a text, of which the last one before them is at `place`, fall into the
stretches of the given tokens, one after the other, and characters that belong to no token. -/
inductive Falls : Location → List Char → List Token → Prop
  | nil (place : Location) : Falls place [] []
  | skipped {place : Location} {gap more : List Char} {tokens : List Token}
    (h : Skipped more gap) (rest : Falls (place.after gap) more tokens) :
    Falls place (gap ++ more) tokens
  | unwritten {place : Location} {cs : List Char} {token : Token} {tokens : List Token}
    (h : token.kind.isUnwritten) (rest : Falls place cs tokens) : Falls place cs (token :: tokens)
  | written {place : Location} {kind : Kind} {used more : List Char} {tokens : List Token}
    (stretch : kind.Stretch used) (ends : ∀ c, more.head? = some c → kind.continuedBy used c = false)
    (rest : Falls (place.after used) more tokens) :
    Falls place (used ++ more) (⟨kind, place.following⟩ :: tokens)

/-! ### Tokens at the head of some characters -/

variable {c : Char} {cs more gap gap' : List Char}

/-- A character that ends a run does not belong to it. -/
theorem head?_dropWhile {p : Char → Bool} {d : Char} (h : (cs.dropWhile p).head? = some d) :
    p d = false := by
  have hstop := List.head?_dropWhile_not p cs
  rw [h] at hstop
  exact hstop

/-- The shape in which a token is found: its stretch, and what follows. -/
def Spelled (cs : List Char) (found : Kind × List Char) : Prop :=
  ∃ used, cs = used ++ found.2 ∧ found.1.Stretch used ∧
    ∀ d, found.2.head? = some d → found.1.continuedBy used d = false

theorem spelled_wordOf : Spelled cs (wordOf cs) := by
  refine ⟨cs.takeWhile isWordChar, (List.takeWhile_append_dropWhile ..).symm, ?_, fun d hd => ?_⟩
  · rw [wordOf, Kind.ofWord]
    split
    · next word hword =>
      have hspelling := Keyword.spelling_of_ofSpelling? hword
      have := Kind.Stretch.keyword word
      rwa [hspelling, String.toList_ofList] at this
    · have := Kind.Stretch.identifier (String.ofList (cs.takeWhile isWordChar))
      rwa [String.toList_ofList] at this
  · have := head?_dropWhile hd
    rw [wordOf, Kind.ofWord]
    split <;> exact this

theorem spelled_numberOf (valid : (numberOf cs).1.isInvalid = false) : Spelled cs (numberOf cs) := by
  refine ⟨cs.takeWhile isNumberChar, (List.takeWhile_append_dropWhile ..).symm, ?_, fun d hd => ?_⟩
  all_goals
    rw [numberOf, numberKind] at valid ⊢
  · cases hvalue : Number.ofRun? (cs.takeWhile isNumberChar) with
    | none => simp [hvalue, Kind.isInvalid] at valid
    | some value =>
      have hrun : (String.ofList (cs.takeWhile isNumberChar)).toList = cs.takeWhile isNumberChar :=
        String.toList_ofList
      have hdigits : (Kind.number (String.ofList (cs.takeWhile isNumberChar)) value).Stretch
          (String.ofList (cs.takeWhile isNumberChar)).toList :=
        .digits (by rw [hrun]; exact List.all_takeWhile) (by rw [hrun, hvalue])
      rwa [hrun] at hdigits
  · have := head?_dropWhile hd
    split
    · simp [Kind.continuedBy, this]
    · rfl

theorem closeOf_eq (valid : (closeOf c cs).1.isInvalid = false) :
    cs = quote :: (closeOf c cs).2 ∧ (closeOf c cs).1 =
      .number (String.ofList (quote :: escapeLiteral c ++ [quote])) (.int c.toNat) := by
  rw [closeOf] at valid ⊢
  split at valid
  · next hq =>
    obtain ⟨cs, rfl⟩ := List.head?_eq_some_iff.1 hq
    exact ⟨rfl, rfl⟩
  · cases valid

theorem spelled_characterOf (valid : (characterOf cs).1.isInvalid = false) :
    Spelled (quote :: cs) (characterOf cs) := by
  have close {c : Char} {cs : List Char} (used : List Char)
      (valid : (closeOf c cs).1.isInvalid = false)
      (stretch : ∀ text, (Kind.number text (.int c.toNat)).Stretch (used ++ [quote]))
      (hused : used.head? = some quote) : Spelled (used ++ cs) (closeOf c cs) := by
    obtain ⟨hcs, hkind⟩ := closeOf_eq valid
    refine ⟨used ++ [quote], ?_, hkind ▸ stretch _, fun d _ => ?_⟩
    · nth_rewrite 1 [hcs]
      rw [List.append_assoc, List.singleton_append]
    · have : used.head? ≠ none := by simp [hused]
      rw [hkind, Kind.continuedBy, List.head?_append, hused]
      rfl
  unfold characterOf at valid ⊢
  split at valid
  · cases valid
  · next c cs =>
    split at valid
    · cases valid
    · next hn =>
      rw [if_neg hn]
      split at valid
      · cases valid
      · next hq =>
        rw [if_neg hq]
        split at valid
        · next hb =>
          subst hb
          rw [if_pos rfl]
          unfold escapeOf at valid ⊢
          split at valid
          · cases valid
          · next letter cs =>
            split at valid
            · cases valid
            · next hl =>
              rw [if_neg hl]
              split at valid
              · next c hc =>
                exact close [quote, '\\', letter] valid (fun text => .escaped text hc) rfl
              · cases valid
        · next hb =>
          rw [if_neg hb]
          exact close [quote, c] valid (fun text => .quoted text ⟨hq, hb, hn⟩) rfl

theorem spelled_symbolOf (valid : (symbolOf c cs).1.isInvalid = false) :
    Spelled (c :: cs) (symbolOf c cs) := by
  have stretch {sign : Symbol} {run : List Char} (h : sign.spelling.toList = run) :
      (Kind.symbol sign).Stretch run := h ▸ .symbol sign
  unfold symbolOf at valid ⊢
  cases hpair : cs.head?.bind (Symbol.ofPair? c) with
  | some sign =>
    obtain ⟨d, hd, hsign⟩ := Option.bind_eq_some_iff.1 hpair
    obtain ⟨ds, rfl⟩ := List.head?_eq_some_iff.1 hd
    exact ⟨[c, d], rfl, stretch (by simpa using List.find?_some hsign), fun _ _ => rfl⟩
  | none =>
    simp only [hpair] at valid
    cases hchar : Symbol.ofChar? c with
    | some sign =>
      exact ⟨[c], rfl, stretch (by simpa using List.find?_some hchar), fun _ _ => rfl⟩
    | none => simp [hchar, Kind.isInvalid] at valid

/-- What is found at the head of some characters is spelled by them. -/
theorem spelled_tokenOf (valid : (tokenOf c cs).1.isInvalid = false) :
    Spelled (c :: cs) (tokenOf c cs) := by
  unfold tokenOf at valid ⊢
  split at valid
  · next hq =>
    subst hq
    rw [if_pos rfl]
    exact spelled_characterOf valid
  · next hq =>
    rw [if_neg hq]
    split at valid
    · next hnumber =>
      rw [if_pos hnumber]
      exact spelled_numberOf valid
    · next hnumber =>
      rw [if_neg hnumber]
      split at valid
      · next hword =>
        rw [if_pos hword]
        exact spelled_wordOf
      · next hword =>
        rw [if_neg hword]
        exact spelled_symbolOf valid

/-! ### Characters that are skipped -/

theorem Skipped.append (h : Skipped (gap' ++ more) gap) (h' : Skipped more gap') :
    Skipped more (gap ++ gap') := by
  induction h with
  | nil => exact h'
  | blank hc _ ih => exact .blank hc ih
  | comment line ends _ ih =>
    rw [List.cons_append, List.append_assoc]
    rw [← List.append_assoc] at ends
    exact .comment line ends ih

theorem Skipped.of_blank (h : ∀ c ∈ gap, Text.isBlank c) : Skipped more gap := by
  induction gap with
  | nil => exact .nil
  | cons c gap ih =>
    exact .blank (h c List.mem_cons_self) (ih fun d hd => h d (List.mem_cons_of_mem c hd))

theorem Skipped.takeWhile {p : Char → Bool} (h : ∀ c, p c → Text.isBlank c) :
    Skipped more (cs.takeWhile p) :=
  .of_blank fun c hc => h c (List.all_eq_true.1 List.all_takeWhile c hc)

theorem isBlank_of_isGap (h : isGap c) : Text.isBlank c := by
  rw [isGap, Bool.and_eq_true] at h
  exact h.2

theorem isBlank_of_isMarginChar (h : Margin.isMarginChar c) : Text.isBlank c := by
  simp only [Margin.isMarginChar, Bool.or_eq_true, decide_eq_true_eq] at h
  rcases h with rfl | rfl <;> decide

/-- A comment is skipped with the end of its line, if it has one. -/
theorem exists_skipped_comment {s : Stream} (hs : s.LineWise) (hp : s.peek = some '#') :
    ∃ gap, s.Reads gap (skipComment s).2 ∧ Skipped (skipComment s).2.remaining gap ∧
      ((skipComment s).1 = false → (skipComment s).2.remaining = []) := by
  obtain ⟨body, hbody⟩ : ∃ body, s.remaining.takeWhile (· ≠ '\n') = '#' :: body := by
    rw [Stream.remaining_eq_cons hp, List.takeWhile_cons_of_pos (by decide)]
    exact ⟨_, rfl⟩
  have hline : '\n' ∉ body := fun hmem =>
    not_mem_takeWhile (p := (· ≠ '\n')) (by decide) s.remaining
      (hbody ▸ List.mem_cons_of_mem '#' hmem)
  rcases reads_skipComment hs with ⟨later, -, hb, hread⟩ | ⟨hend, -, hread⟩
  · rw [hbody] at hread
    refine ⟨_, hread, ?_, fun h => by simp [hb] at h⟩
    exact .comment hline (.inr rfl) (.blank (by decide) .nil)
  · have hrest : (skipComment s).2.remaining = [] := by
      refine hread.rest ?_
      rw [List.append_nil]
      nth_rewrite 1 [← List.takeWhile_append_dropWhile (p := (· ≠ '\n')) (l := s.remaining)]
      rw [hend, List.append_nil]
    rw [hbody] at hread
    refine ⟨_, hread, ?_, fun _ => hrest⟩
    rw [hrest, ← List.append_nil body]
    exact .comment hline (.inl rfl) .nil

/-- Lines without content are skipped, and so is the margin of the first line that has some. -/
theorem exists_skipped_firstContent {s : Stream} (hs : s.LineWise) :
    ∃ gap, s.Reads gap (firstContent s).2 ∧ Skipped (firstContent s).2.remaining gap := by
  fun_induction firstContent s with
  | case1 s line h =>
    exact ⟨_, Stream.reads_takeWhile _ hs, .takeWhile fun _ => isBlank_of_isMarginChar⟩
  | case2 s line h ih =>
    have hline := Stream.reads_takeWhile Margin.isMarginChar hs
    have hskip := Stream.reads_skip hline.lineWise h
    obtain ⟨gap, hread, hgap⟩ := ih hskip.lineWise
    refine ⟨_, hline.trans (hskip.trans hread), .append ?_ (.blank (by decide) hgap)⟩
    exact .takeWhile fun _ => isBlank_of_isMarginChar
  | case3 s line h _ ih =>
    have hline := Stream.reads_takeWhile Margin.isMarginChar hs
    obtain ⟨comment, hcomment, hskipped, -⟩ := exists_skipped_comment hline.lineWise h
    obtain ⟨gap, hread, hgap⟩ := ih hcomment.lineWise
    rw [hread.remaining] at hskipped
    refine ⟨_, hline.trans (hcomment.trans hread), .append ?_ (hskipped.append hgap)⟩
    exact .takeWhile fun _ => isBlank_of_isMarginChar
  | case4 s line c h =>
    exact ⟨_, Stream.reads_takeWhile _ hs, .takeWhile fun _ => isBlank_of_isMarginChar⟩

end Token

/-! ### What a token takes of the text -/

namespace Lexer

/-- What the token `x` takes of the characters that the stream `s` is about to deliver: characters that
are skipped, and then the stretch of the token, if it has one. -/
inductive Takes (s : Stream) (x : Lexeme) : Prop
  | unwritten {gap : List Char} (reads : s.Reads gap x.after.stream)
    (skipped : Skipped x.after.stream.remaining gap) (kind : x.token.kind.isUnwritten)
    (ended : x.token.kind = .endOfInput → x.after.stream.remaining = [])
  | written {gap used : List Char} (reads : s.Reads (gap ++ used) x.after.stream)
    (skipped : Skipped (used ++ x.after.stream.remaining) gap) (stretch : x.token.kind.Stretch used)
    (ends : ∀ c, x.after.stream.remaining.head? = some c →
      x.token.kind.continuedBy used c = false)
    (location : x.token.location = (s.location.after gap).following)

variable {l : Lexer} {s t : Stream} {x : Lexeme} {gap : List Char}

/-- Further characters are skipped before those that a token takes. -/
theorem Takes.of_skipped (h : Takes t x) (hread : s.Reads gap t) (hgap : Skipped t.remaining gap) :
    Takes s x := by
  cases h with
  | unwritten reads skipped kind ended =>
    rw [reads.remaining] at hgap
    exact .unwritten (hread.trans reads) (hgap.append skipped) kind ended
  | @written gap' used reads skipped stretch ends location =>
    rw [reads.remaining, List.append_assoc] at hgap
    have hreads : s.Reads (gap ++ gap' ++ used) x.after.stream := by
      rw [List.append_assoc]
      exact hread.trans reads
    refine .written hreads (hgap.append skipped) stretch ends ?_
    rw [location, hread.location, Location.after_append]

/-- A token and those after it. -/
theorem Takes.falls (h : Takes s x) {tokens : List Token}
    (later : Falls x.after.stream.location x.after.stream.remaining tokens) :
    Falls s.location s.remaining (x.token :: tokens) := by
  cases h with
  | unwritten reads skipped kind =>
    rw [reads.location] at later
    rw [reads.remaining]
    exact .skipped skipped (.unwritten kind later)
  | @written gap used reads skipped stretch ends location =>
    rw [reads.location, Location.after_append] at later
    have hwritten := Falls.written stretch ends later
    rw [← location] at hwritten
    rw [reads.remaining, List.append_assoc]
    exact .skipped skipped hwritten

theorem Takes.remaining_of_endOfInput (h : Takes s x) (hx : x.token.kind = .endOfInput) :
    x.after.stream.remaining = [] := by
  cases h with
  | unwritten _ _ _ ended => exact ended hx
  | written _ _ stretch =>
    rw [hx] at stretch
    cases stretch

theorem takes_finish {place : Location} (hs : l.stream.LineWise) (h : l.stream.remaining = []) :
    Takes l.stream (l.finish place) := by
  rw [finish]
  split
  · exact .unwritten (.refl hs) .nil rfl fun _ => h
  · exact .unwritten (.refl hs) .nil rfl fun _ => h

theorem takes_inLine (hs : l.stream.LineWise) (valid : l.inLine.token.kind.isInvalid = false) :
    Takes l.stream l.inLine := by
  have hgap := Stream.reads_takeWhile isGap hs
  have hfill := Stream.fill_takeWhile isGap hs
  have hskipped : Skipped (l.stream.takeWhile isGap).2.remaining (l.stream.remaining.takeWhile isGap) :=
    .takeWhile fun _ => isBlank_of_isGap
  unfold inLine at valid ⊢
  dsimp only at valid ⊢
  generalize (l.stream.takeWhile isGap).2 = t at *
  refine Takes.of_skipped ?_ hgap hskipped
  cases hp : t.peek with
  | none =>
    exact takes_finish (l := { l with stream := t }) hgap.lineWise (Stream.peek_eq_none_iff.1 hp)
  | some c =>
    simp only [hp] at valid
    dsimp only
    split
    · next hn =>
      subst hn
      exact .unwritten (Stream.reads_skip hgap.lineWise hp) (.blank (by decide) .nil) rfl
        Kind.noConfusion
    · next hn =>
      rw [if_neg hn] at valid
      split
      · next hc =>
        subst hc
        obtain ⟨comment, hread, hcomment, hend⟩ := exists_skipped_comment hgap.lineWise hp
        split
        · exact .unwritten hread hcomment rfl Kind.noConfusion
        · next hb =>
          exact (takes_finish (l := { l with stream := (skipComment t).2 }) hread.lineWise
            (hend (by simpa using hb))).of_skipped hread hcomment
      · next hc =>
        rw [if_neg hc] at valid
        have hagree := agrees_scan hgap.lineWise hfill hp hn
        obtain ⟨used, -, hread⟩ := hagree.reads
        have hkind : (scan c t).1.isInvalid = false := valid
        rw [hagree.kind] at hkind
        obtain ⟨used', hsplit, hstretch, hends⟩ := spelled_tokenOf hkind
        rw [← Stream.remaining_eq_cons hp, ← hagree.rest, hread.remaining,
          List.append_cancel_right_eq] at hsplit
        subst hsplit
        rw [← hagree.kind] at hstretch hends
        rw [← hagree.rest] at hends
        rw [← List.nil_append used] at hread
        exact .written hread .nil hstretch hends rfl

/-- What a token takes that is read. -/
theorem takes_read (hs : l.stream.LineWise) (valid : l.read.token.kind.isInvalid = false) :
    Takes l.stream l.read := by
  obtain ⟨gap, hcontent, hgap⟩ := exists_skipped_firstContent hs
  have hread := readCases_read l
  generalize l.read = x at *
  cases hread with
  | dedent => exact .unwritten (.refl hs) .nil rfl Kind.noConfusion
  | within => exact takes_inLine hs valid
  | first _ stream =>
    rw [← stream] at hcontent hgap
    exact (takes_inLine hcontent.lineWise valid).of_skipped hcontent hgap
  | layout stream _ kind =>
    rw [← stream] at hcontent hgap
    have hunwritten : x.token.kind.isUnwritten := by
      revert kind valid
      cases x.token.kind <;> simp [Kind.isLayout, Kind.isInvalid, Kind.isUnwritten]
    refine .unwritten hcontent hgap hunwritten fun hend => ?_
    rw [hend] at kind
    cases kind

/-- What a lexer has still to deliver falls into the stretches of the tokens to come. -/
theorem falls_lexemes (hs : l.stream.LineWise)
    (valid : ∀ x ∈ l.lexemes, x.token.kind.isInvalid = false) :
    Falls l.stream.location l.stream.remaining (l.lexemes.map Lexeme.token) := by
  induction hw : l.weight using Nat.strongRecOn generalizing l with
  | _ w ih =>
    have htakes := takes_read hs (token_next l ▸ valid _ l.next_mem_lexemes)
    by_cases hend : l.next.token.kind = .endOfInput
    · rw [lexemes_eq_singleton hend, List.map_singleton, token_next]
      refine htakes.falls ?_
      rw [htakes.remaining_of_endOfInput (token_next l ▸ hend)]
      exact .nil _
    · obtain ⟨_, hread, -⟩ := reads_read hs
      rw [lexemes_eq_cons hend] at valid
      rw [lexemes_eq_cons hend, List.map_cons, token_next]
      refine htakes.falls ?_
      rw [← after_next] at hread ⊢
      exact ih _ (hw ▸ weight_next_lt hend) hread.lineWise
        (fun x hx => valid x (List.mem_cons_of_mem _ hx)) rfl

/-- Nothing of a text is lost by cutting it into tokens, if no character or margin is refused. The words,
numbers and signs have stretches of the text to themselves, one after the other, each of which starts
where its token stands, spells the token, and ends before the first character that does not continue
it. All other characters are blanks, line feeds, or in comments. -/
theorem falls_ofInput (input : Input)
    (valid : ∀ x ∈ (ofInput input).lexemes, x.token.kind.isInvalid = false) :
    Falls Location.start (normalise input.text) ((ofInput input).lexemes.map Lexeme.token) :=
  falls_lexemes (Stream.lineWise_ofInput input) valid

/-- The tokens of a line with a character literal, and a comment after it. -/
theorem falls_ofInput_line :
    let input : Input := ⟨"x\t= 'a'# b\r\n".toList, false⟩
    (∀ x ∈ (ofInput input).lexemes, x.token.kind.isInvalid = false) ∧
      Falls ⟨1, 0⟩ "x\t= 'a'# b\n".toList
        [⟨.identifier "x", ⟨1, 1⟩⟩, ⟨.symbol .assign, ⟨1, 3⟩⟩, ⟨.number "'a'" (.int 97), ⟨1, 5⟩⟩,
          ⟨.endOfLine, ⟨2, 1⟩⟩, ⟨.endOfInput, ⟨2, 1⟩⟩] := by
  intro input
  have valid : ∀ x ∈ (ofInput input).lexemes, x.token.kind.isInvalid = false := by decide +kernel
  have htokens : (ofInput input).lexemes.map Lexeme.token =
      [⟨.identifier "x", ⟨1, 1⟩⟩, ⟨.symbol .assign, ⟨1, 3⟩⟩, ⟨.number "'a'" (.int 97), ⟨1, 5⟩⟩,
        ⟨.endOfLine, ⟨2, 1⟩⟩, ⟨.endOfInput, ⟨2, 1⟩⟩] := by decide +kernel
  have hfalls := falls_ofInput input valid
  rw [htokens] at hfalls
  exact ⟨valid, hfalls⟩

end Lexer

end Offside
