import Mathlib.Algebra.Ring.Parity
import Mathlib.Data.List.Nodup
import Offside.Proofs.StringLiterals

/-!
# Quotation

Each character of a text is printed on its own, as it is or as an escape, and the character behind
the backslash tells how long the escape is.  So a reader gets the text back whatever comes behind
it, and two texts are printed alike only if they are the same.  It is the same with the captions of
tokens, because no name of a kind contains a space.
-/

namespace Offside

open Text

namespace Text

/-! ## Single characters -/

/-- How a character is written between quotes. -/
inductive Written (c : Char) : List Char → Prop where
  | plain (notBackslash : c ≠ '\\') (notQuote : c ≠ '\"') (notControl : isControl c = false) :
      Written c [c]
  | letter {letter : Char} (found : quoteLetter? c = some letter) : Written c ['\\', letter]
  | low (noLetter : quoteLetter? c = none) (control : isControl c = true)
      (inRange : c.toNat < 0x80) : Written c ('\\' :: 'x' :: hexPadded 2 c.toNat)
  | high (noLetter : quoteLetter? c = none) (control : isControl c = true) :
      Written c ('\\' :: 'u' :: hexPadded 4 c.toNat)

theorem written_quoteChar (c : Char) : Written c (quoteChar c) := by
  rw [quoteChar]
  cases found : quoteLetter? c with
  | some letter => exact .letter found
  | none =>
    by_cases control : isControl c = true
    · by_cases inRange : c.toNat < 0x80
      · simpa [control, inRange] using Written.low found control inRange
      · simpa [control, inRange] using Written.high found control
    · -- The backslash and the quote have letters of their own.
      have notBackslash : c ≠ '\\' := by
        rintro rfl
        cases found
      have notQuote : c ≠ '\"' := by
        rintro rfl
        cases found
      simpa [control] using Written.plain notBackslash notQuote (by simpa using control)

theorem Units.append_plain {quote : Char} {plain rest : List Char} (isUnits : Units quote rest)
    (isPlain : ∀ c ∈ plain, c ≠ '\\' ∧ c ≠ quote) : Units quote (plain ++ rest) := by
  induction plain with
  | nil => exact isUnits
  | cons c plain ih =>
    obtain ⟨⟨notBackslash, notQuote⟩, others⟩ := List.forall_mem_cons.1 isPlain
    exact .plain notBackslash notQuote (ih others)

theorem quotedBy?_of_quoteLetter? {c letter : Char} (found : quoteLetter? c = some letter) :
    quotedBy? letter = some c ∧ letter ≠ 'x' ∧ letter ≠ 'u' ∧ isControl letter = false := by
  rw [quoteLetter?] at found
  split_ifs at found
  all_goals
    subst c
    cases found
    decide

theorem toNat_le_of_isControl {c : Char} (control : isControl c = true) : c.toNat ≤ 0x9f := by
  simp only [isControl, Bool.or_eq_true, Bool.and_eq_true, decide_eq_true_eq] at control
  omega

theorem exists_of_mem_hexPadded {d : Char} {places n : Nat} (member : d ∈ hexPadded places n) :
    ∃ k < 16, d = hexDigit k := by
  induction places generalizing n with
  | zero => cases member
  | succ places ih =>
    rw [hexPadded, List.mem_append, List.mem_singleton] at member
    rcases member with front | last
    · exact ih front
    · exact ⟨_, Nat.mod_lt _ (by decide), last⟩

theorem plain_of_mem_hexPadded {d : Char} {places n : Nat} (member : d ∈ hexPadded places n) :
    d ≠ '\\' ∧ d ≠ '\"' ∧ isControl d = false := by
  have all : ∀ k < 16, hexDigit k ≠ '\\' ∧ hexDigit k ≠ '\"' ∧ isControl (hexDigit k) = false := by
    decide
  obtain ⟨k, small, rfl⟩ := exists_of_mem_hexPadded member
  exact all k small

namespace Written

variable {c : Char} {shown : List Char}

/-- What is written is read as the character, whatever comes behind it. -/
theorem unquoteBody?_append (written : Written c shown) (rest : List Char) :
    unquoteBody? (shown ++ rest) =
      (unquoteBody? rest).map fun (text, behind) => (c :: text, behind) := by
  cases written with
  | plain notBackslash notQuote =>
    rw [List.singleton_append, unquoteBody?]
    · cases unquoteBody? rest <;> rfl
    · exact notQuote
    · exact fun _ _ _ isBackslash _ => notBackslash isBackslash
    · exact fun _ _ _ _ _ isBackslash _ => notBackslash isBackslash
    · exact fun _ _ isBackslash _ => notBackslash isBackslash
  | letter found =>
    obtain ⟨stands, notLow, notHigh, -⟩ := quotedBy?_of_quoteLetter? found
    rw [List.cons_append, List.singleton_append, unquoteBody?, stands]
    · cases unquoteBody? rest <;> rfl
    · exact fun _ _ _ isLow _ => notLow isLow
    · exact fun _ _ _ _ _ isHigh _ => notHigh isHigh
  | low _ _ inRange =>
    -- The number of digits is fixed, so those of the number end where they should even if the rest
    -- begins with digits.
    have read : hexRead? (hexPadded 2 c.toNat) = some c.toNat :=
      hexRead?_hexPadded (Nat.lt_of_lt_of_le inRange (by decide))
    obtain ⟨a, b, digits⟩ : ∃ a b, hexPadded 2 c.toNat = [a, b] := ⟨_, _, rfl⟩
    rw [digits] at read ⊢
    simp only [List.cons_append, List.nil_append, unquoteBody?, read, Option.bind_eq_bind,
      Option.bind_some, Char.ofNat_toNat]
    cases unquoteBody? rest <;> rfl
  | high _ control =>
    have read : hexRead? (hexPadded 4 c.toNat) = some c.toNat :=
      hexRead?_hexPadded (Nat.lt_of_le_of_lt (toNat_le_of_isControl control) (by decide))
    obtain ⟨a, b, d, e, digits⟩ : ∃ a b d e, hexPadded 4 c.toNat = [a, b, d, e] :=
      ⟨_, _, _, _, rfl⟩
    rw [digits] at read ⊢
    simp only [List.cons_append, List.nil_append, unquoteBody?, read, Option.bind_eq_bind,
      Option.bind_some, Char.ofNat_toNat]
    cases unquoteBody? rest <;> rfl

theorem notControl (written : Written c shown) : ∀ d ∈ shown, isControl d = false := by
  cases written with
  | plain _ _ notControl => simpa using notControl
  | letter found =>
    obtain ⟨-, -, -, notControl⟩ := quotedBy?_of_quoteLetter? found
    simp [notControl]
    rfl
  | low | high =>
    rintro d (- | ⟨_, - | ⟨_, member⟩⟩)
    · rfl
    · rfl
    · exact (plain_of_mem_hexPadded member).2.2

theorem units_append (written : Written c shown) {rest : List Char} (isUnits : Units '\"' rest) :
    Units '\"' (shown ++ rest) := by
  cases written with
  | plain notBackslash notQuote => exact .plain notBackslash notQuote isUnits
  | letter => exact .escaped isUnits
  | low | high =>
    refine .escaped (isUnits.append_plain fun d member => ?_)
    obtain ⟨notBackslash, notQuote, -⟩ := plain_of_mem_hexPadded member
    exact ⟨notBackslash, notQuote⟩

end Written

/-! ## Texts -/

theorem unquoteBody?_quoteBody (text rest : List Char) :
    unquoteBody? (quoteBody text ++ '\"' :: rest) = some (text, rest) := by
  induction text with
  | nil => rw [quoteBody_nil, List.nil_append, unquoteBody?]
  | cons c text ih =>
    rw [quoteBody_cons, List.append_assoc, (written_quoteChar c).unquoteBody?_append, ih]
    rfl

theorem unquote?_quote (text : List Char) : unquote? (quote text) = some text := by
  have read := unquoteBody?_quoteBody text []
  rw [quote, unquote?, read]

theorem quote_injective : Function.Injective quote := by
  intro text other same
  have read := unquote?_quote text
  rw [same, unquote?_quote] at read
  exact (Option.some.inj read).symm

theorem units_quoteBody (text : List Char) : Units '\"' (quoteBody text) := by
  induction text with
  | nil => exact .nil
  | cons c text ih => exact (written_quoteChar c).units_append ih

theorem notControl_of_mem_quoteBody {text : List Char} {c : Char} (member : c ∈ quoteBody text) :
    isControl c = false := by
  obtain ⟨d, -, member⟩ := List.mem_flatMap.1 member
  exact (written_quoteChar d).notControl c member

theorem notControl_of_mem_quote {text : List Char} {c : Char} (member : c ∈ quote text) :
    isControl c = false := by
  rw [quote, List.mem_cons, List.mem_append, List.mem_singleton] at member
  rcases member with rfl | member | rfl
  · rfl
  · exact notControl_of_mem_quoteBody member
  · rfl

theorem odd_backslashes_iff (text : List Char) : Odd (backslashes text) ↔ escapes text = true := by
  rw [← Nat.not_even_iff_odd, ← escapes_eq_false_iff, Bool.not_eq_false]

theorem odd_backslashes_of_quoteBody {text before after : List Char}
    (split : quoteBody text = before ++ '\"' :: after) : Odd (backslashes ('\"' :: before)) := by
  rw [odd_backslashes_iff, escapes_plain (by decide)]
  exact (units_quoteBody text).escapes_of_quote (by decide) split

end Text

/-! ## Captions -/

namespace Kind

def all : List Kind := simple ++ Keyword.all.map keyword ++ Operator.all.map operator

theorem mem_all (kind : Kind) : kind ∈ all := by
  rw [all, List.mem_append, List.mem_append]
  cases kind with
  | keyword word => exact .inl (.inr (List.mem_map_of_mem word.mem_all))
  | operator mark => exact .inr (List.mem_map_of_mem mark.mem_all)
  | _ => exact .inl (.inl (by decide))

theorem name_injective : Function.Injective name := by
  -- Keywords and operators draw their names from one pool, so all kinds are compared at once.
  have distinct : (all.map name).Nodup := by decide +kernel
  exact fun kind other same => List.inj_on_of_nodup_map distinct kind.mem_all other.mem_all same

theorem noSpace_name (kind : Kind) : ∀ c ∈ kind.name.toList, (c != ' ') = true := by
  have noSpaces : ∀ kind ∈ all, kind.name.toList.all (· != ' ') = true := by decide +kernel
  exact List.all_eq_true.1 (noSpaces kind kind.mem_all)

end Kind

namespace Token

variable {token other : Token} {shown : String}

/-- A caption shows the kind and the text of its token, or it is that of the end of a stream. -/
theorem caption_cases (captioned : token.caption = .ok shown) :
    (token.kind = .eof ∧ shown.toList = ['E', 'O', 'F']) ∨
      ∃ text, token.chars = .ok text ∧
        shown.toList = "Token: ".toList ++ (token.kind.name.toList ++ ' ' :: quote text) := by
  rw [caption] at captioned
  split at captioned
  next isEof =>
    cases captioned
    exact .inl ⟨beq_iff_eq.1 isEof, rfl⟩
  next =>
    cases read : token.chars with
    | error fault =>
      rw [read] at captioned
      cases captioned
    | ok text =>
      rw [read] at captioned
      cases captioned
      exact .inr ⟨text, rfl, by simp⟩

theorem eq_of_caption_eq (first : token.caption = .ok shown) (second : other.caption = .ok shown) :
    (token.kind = .eof ∧ other.kind = .eof) ∨
      (token.kind = other.kind ∧ ∃ text, token.chars = .ok text ∧ other.chars = .ok text) := by
  rcases caption_cases first with ⟨isEof, same⟩ | ⟨text, chars, same⟩
  · -- The caption of the end of a stream begins like no other.
    rcases caption_cases second with ⟨otherEof, -⟩ | ⟨behind, -, shows⟩
    · exact .inl ⟨isEof, otherEof⟩
    · rw [same] at shows
      cases shows
  · rcases caption_cases second with ⟨-, shows⟩ | ⟨behind, otherChars, shows⟩
    · rw [same] at shows
      cases shows
    · -- The name of the kind ends at the first space behind the label.
      rw [same, List.append_cancel_left_eq] at shows
      have ends := @span_exact _ (· != ' ') _ (' ' :: quote text) token.kind.noSpace_name
        (by simp)
      have otherEnds := @span_exact _ (· != ' ') _ (' ' :: quote behind) other.kind.noSpace_name
        (by simp)
      rw [shows] at ends
      have names := ends.1.symm.trans otherEnds.1
      have quoted := ends.2.symm.trans otherEnds.2
      obtain rfl := quote_injective (List.cons.inj quoted).2
      exact .inr ⟨Kind.name_injective (String.toList_injective names), text, chars, otherChars⟩

end Token

/-- The printed form of a text is read back, whatever stands behind it, and holds no control
character and no quote that is not escaped.  Two tokens with the same caption have the same kind and
the same text, or both end their streams. -/
theorem Text.quote_unambiguous :
    Function.Injective quote ∧
      (∀ text, unquote? (quote text) = some text) ∧
      (∀ text rest, unquoteBody? (quoteBody text ++ '\"' :: rest) = some (text, rest)) ∧
      (∀ text, (∀ c ∈ quote text, isControl c = false) ∧
        ∃ inside, quote text = '\"' :: (inside ++ ['\"']) ∧
          ∀ before after, inside = before ++ '\"' :: after →
            Odd (backslashes ('\"' :: before))) ∧
      ∀ (token other : Token) (shown : String), token.caption = .ok shown →
        other.caption = .ok shown →
        (token.kind = .eof ∧ other.kind = .eof) ∨
          (token.kind = other.kind ∧ ∃ text, token.chars = .ok text ∧ other.chars = .ok text) := by
  refine ⟨quote_injective, unquote?_quote, unquoteBody?_quoteBody, fun text => ?_, ?_⟩
  · exact ⟨fun c => notControl_of_mem_quote, quoteBody text, rfl,
      fun before after => odd_backslashes_of_quoteBody⟩
  · exact fun token other shown => Token.eq_of_caption_eq

/-- Two tokens in different lines with one caption. -/
theorem Text.quote_unambiguous_lines :
    ∃ (token other : Token) (shown : String), token.line = 1 ∧ other.line = 2 ∧
      token.caption = .ok shown ∧ other.caption = .ok shown ∧
      ((token.kind = .eof ∧ other.kind = .eof) ∨
        (token.kind = other.kind ∧ ∃ text, token.chars = .ok text ∧ other.chars = .ok text)) ∧
      quoteBody ['\"'] = ['\\'] ++ '\"' :: [] ∧ Odd (backslashes ['\"', '\\']) := by
  obtain ⟨-, -, -, quoted, captions⟩ := quote_unambiguous
  have first : Token.caption ⟨.string, ⟨0, 2, ⟨0, "", "", ['\"', '\"'], #[]⟩⟩, 1⟩ =
      .ok "Token: T_STRING \"\\\"\\\"\"" := rfl
  have second : Token.caption ⟨.string, ⟨0, 2, ⟨0, "", "", ['\"', '\"'], #[]⟩⟩, 2⟩ =
      .ok "Token: T_STRING \"\\\"\\\"\"" := rfl
  obtain ⟨-, inside, same, odd⟩ := quoted ['\"']
  obtain rfl : quoteBody ['\"'] = inside := (List.append_inj' (List.cons.inj same).2 rfl).1
  exact ⟨_, _, _, rfl, rfl, first, second, captions _ _ _ first second, rfl, odd ['\\'] [] rfl⟩

end Offside
