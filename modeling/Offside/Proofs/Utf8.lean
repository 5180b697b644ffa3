import Offside.Store.Files

/-!
# UTF-8 read back

The reader of bytes takes a character where its bytes stand and nothing else, so what it accepts is
what texts are written as.  The bytes of one character are told by a relation of their own, with a
case for each length: the reader is compared with it on one side and the writer on the other.
-/

namespace Offside

namespace Text.Utf8

/-! ## The bytes of a character -/

/-- A further byte of a character. -/
def Follows (b : UInt8) : Prop := 0x80 ≤ b.toNat ∧ b.toNat ≤ 0xbf

/-- A character begins some bytes, the one at this code point, and the rest stands behind it. -/
inductive Begins : List UInt8 → Nat → List UInt8 → Prop where
  | one {a : UInt8} {rest : List UInt8} (ascii : a.toNat < 0x80) : Begins (a :: rest) a.toNat rest
  | two {a b : UInt8} {rest : List UInt8} (low : 0xc2 ≤ a.toNat) (high : a.toNat < 0xe0)
      (second : Follows b) :
      Begins (a :: b :: rest) ((a.toNat - 0xc0) * 64 + b.toNat % 64) rest
  | three {a b c : UInt8} {rest : List UInt8} (low : 0xe0 ≤ a.toNat) (high : a.toNat < 0xf0)
      (second : Follows b) (third : Follows c) (notOverlong : a.toNat = 0xe0 → 0xa0 ≤ b.toNat)
      (notSurrogate : a.toNat = 0xed → b.toNat ≤ 0x9f) :
      Begins (a :: b :: c :: rest)
        (((a.toNat - 0xe0) * 64 + b.toNat % 64) * 64 + c.toNat % 64) rest
  | four {a b c d : UInt8} {rest : List UInt8} (low : 0xf0 ≤ a.toNat) (high : a.toNat < 0xf5)
      (second : Follows b) (third : Follows c) (fourth : Follows d)
      (notOverlong : a.toNat = 0xf0 → 0x90 ≤ b.toNat)
      (notBeyond : a.toNat = 0xf4 → b.toNat ≤ 0x8f) :
      Begins (a :: b :: c :: d :: rest)
        ((((a.toNat - 0xf0) * 64 + b.toNat % 64) * 64 + c.toNat % 64) * 64 + d.toNat % 64) rest

/-! ## The reader -/

/-- First bytes lie in four ranges.  At the lower ends of the last two overlong forms are left out,
at the upper ones surrogates and what is above U+10FFFF. -/
theorem lead?_eq (b : Nat) : lead? b =
    if b < 0x80 then some ⟨0, 0x80, 0xbf, b⟩
    else if b < 0xc2 then none
    else if b < 0xe0 then some ⟨1, 0x80, 0xbf, b - 0xc0⟩
    else if b < 0xf0 then
      some ⟨2, if b = 0xe0 then 0xa0 else 0x80, if b = 0xed then 0x9f else 0xbf, b - 0xe0⟩
    else if b < 0xf5 then
      some ⟨3, if b = 0xf0 then 0x90 else 0x80, if b = 0xf4 then 0x8f else 0xbf, b - 0xf0⟩
    else none := by
  unfold lead?
  grind

theorem readTail_succ_eq_complete_iff {low high codePoint seen owed n : Nat}
    {bytes rest : List UInt8} :
    readTail low high codePoint seen (owed + 1) bytes = .complete n rest ↔
      ∃ b others, bytes = b :: others ∧ (low ≤ b.toNat ∧ b.toNat ≤ high) ∧
        readTail 0x80 0xbf (codePoint * 64 + b.toNat % 64) (seen + 1) owed others =
          .complete n rest := by
  cases bytes with
  | nil => simp [readTail]
  | cons b others =>
    rw [readTail]
    constructor
    · intro complete
      split at complete
      · exact ⟨b, others, rfl, ‹_›, complete⟩
      · simp at complete
    · rintro ⟨_, _, same, within, complete⟩
      obtain ⟨rfl, rfl⟩ := List.cons.inj same
      rwa [if_pos within]

theorem within_ite_iff {p q : Prop} [Decidable p] [Decidable q] {low later earlier high n : Nat}
    (below : low ≤ later) (above : earlier ≤ high) :
    ((if p then later else low) ≤ n ∧ n ≤ if q then earlier else high) ↔
      (low ≤ n ∧ n ≤ high) ∧ (p → later ≤ n) ∧ (q → n ≤ earlier) := by
  grind

theorem Begins.complete {b : UInt8} {others rest : List UInt8} {n : Nat}
    (begins : Begins (b :: others) n rest) : ∃ lead, lead? b.toNat = some lead ∧
      readTail lead.low lead.high lead.payload 1 lead.owed others = .complete n rest := by
  rw [lead?_eq]
  cases begins with
  | one ascii => exact ⟨_, if_pos ascii, rfl⟩
  | two low high second =>
    rw [if_neg (by omega), if_neg (by omega), if_pos high]
    exact ⟨_, rfl, if_pos second⟩
  | three low high second third notOverlong notSurrogate =>
    rw [if_neg (by omega), if_neg (by omega), if_neg (by omega), if_pos high]
    have inBounds := (within_ite_iff (by omega) (by omega)).2 ⟨second, notOverlong, notSurrogate⟩
    exact ⟨_, rfl, (if_pos inBounds).trans (if_pos third)⟩
  | four low high second third fourth notOverlong notBeyond =>
    rw [if_neg (by omega), if_neg (by omega), if_neg (by omega), if_neg (by omega), if_pos high]
    have inBounds := (within_ite_iff (by omega) (by omega)).2 ⟨second, notOverlong, notBeyond⟩
    exact ⟨_, rfl, (if_pos inBounds).trans ((if_pos third).trans (if_pos fourth))⟩

theorem begins_of_complete {b : UInt8} {others rest : List UInt8} {n : Nat} {lead : Lead}
    (announced : lead? b.toNat = some lead)
    (complete : readTail lead.low lead.high lead.payload 1 lead.owed others = .complete n rest) :
    Begins (b :: others) n rest := by
  rw [lead?_eq] at announced
  split at announced
  next ascii =>
    obtain rfl := Option.some.inj announced
    obtain ⟨rfl, rfl⟩ := Tail.complete.inj complete
    exact .one ascii
  next =>
  split at announced
  next => simp at announced
  next =>
  split at announced
  next high =>
    obtain rfl := Option.some.inj announced
    obtain ⟨_, _, rfl, second, complete⟩ := readTail_succ_eq_complete_iff.1 complete
    obtain ⟨rfl, rfl⟩ := Tail.complete.inj complete
    exact .two (by omega) high second
  next =>
  split at announced
  next high =>
    obtain rfl := Option.some.inj announced
    obtain ⟨_, _, rfl, second, complete⟩ := readTail_succ_eq_complete_iff.1 complete
    obtain ⟨_, _, rfl, third, complete⟩ := readTail_succ_eq_complete_iff.1 complete
    obtain ⟨rfl, rfl⟩ := Tail.complete.inj complete
    obtain ⟨second, notOverlong, notSurrogate⟩ := (within_ite_iff (by omega) (by omega)).1 second
    exact .three (by omega) high second third notOverlong notSurrogate
  next =>
  split at announced
  next high =>
    obtain rfl := Option.some.inj announced
    obtain ⟨_, _, rfl, second, complete⟩ := readTail_succ_eq_complete_iff.1 complete
    obtain ⟨_, _, rfl, third, complete⟩ := readTail_succ_eq_complete_iff.1 complete
    obtain ⟨_, _, rfl, fourth, complete⟩ := readTail_succ_eq_complete_iff.1 complete
    obtain ⟨rfl, rfl⟩ := Tail.complete.inj complete
    obtain ⟨second, notOverlong, notBeyond⟩ := (within_ite_iff (by omega) (by omega)).1 second
    exact .four (by omega) high second third fourth notOverlong notBeyond
  next => simp at announced

/-! ## The writer -/

theorem Begins.of_eq {bytes rest : List UInt8} {m n : Nat} (begins : Begins bytes m rest)
    (same : m = n) : Begins bytes n rest := same ▸ begins

theorem follows_ofNat (n : Nat) : Follows (UInt8.ofNat (n % 64 + 128)) := by
  rw [Follows, UInt8.toNat_ofNat']
  omega

theorem begins_utf8EncodeChar (c : Char) (rest : List UInt8) :
    Begins (String.utf8EncodeChar c ++ rest) c.toNat rest := by
  have valid : c.toNat < 0xd800 ∨ 0xdfff < c.toNat ∧ c.toNat < 0x110000 := c.valid
  unfold String.utf8EncodeChar
  simp only [show c.val.toNat = c.toNat from rfl]
  generalize c.toNat = n at valid
  have last := @UInt8.toNat_ofNat' (n % 64 + 128)
  have beforeLast := @UInt8.toNat_ofNat' (n / 64 % 64 + 128)
  split
  next one =>
    have first := @UInt8.toNat_ofNat' n
    exact (Begins.one (by omega)).of_eq (by omega)
  next =>
  split
  next two =>
    have first := @UInt8.toNat_ofNat' (n / 64 % 32 + 192)
    exact (Begins.two (by omega) (by omega) (follows_ofNat n)).of_eq (by omega)
  next =>
  split
  next three =>
    have first := @UInt8.toNat_ofNat' (n / 4096 % 16 + 224)
    exact (Begins.three (by omega) (by omega) (follows_ofNat _) (follows_ofNat n) (by omega)
      (by omega)).of_eq (by omega)
  next =>
    have first := @UInt8.toNat_ofNat' (n / 262144 % 8 + 240)
    have third := @UInt8.toNat_ofNat' (n / 4096 % 64 + 128)
    exact (Begins.four (by omega) (by omega) (follows_ofNat _) (follows_ofNat _) (follows_ofNat n)
      (by omega) (by omega)).of_eq (by omega)

theorem ofNat_eq {b : UInt8} {n : Nat} (same : n = b.toNat) : UInt8.ofNat n = b := by
  rw [same, UInt8.ofNat_toNat]

theorem Begins.isValidChar {bytes rest : List UInt8} {n : Nat} (begins : Begins bytes n rest) :
    n.isValidChar := by
  unfold Nat.isValidChar
  cases begins with
  | one ascii => omega
  | two low high second => omega
  | three low high second third notOverlong notSurrogate =>
    obtain ⟨least, most⟩ := second
    omega
  | four low high second third fourth notOverlong notBeyond =>
    obtain ⟨least, most⟩ := second
    omega

theorem Begins.exists_char {bytes rest : List UInt8} {n : Nat} (begins : Begins bytes n rest) :
    ∃ c : Char, c.toNat = n ∧ bytes = String.utf8EncodeChar c ++ rest := by
  obtain ⟨c, same⟩ : ∃ c : Char, c.toNat = n := ⟨Char.ofNatAux n begins.isValidChar, rfl⟩
  refine ⟨c, same, ?_⟩
  unfold String.utf8EncodeChar
  simp only [show c.val.toNat = c.toNat from rfl, same]
  cases begins with
  | one ascii => rw [if_pos (by omega), ofNat_eq rfl]; rfl
  | @two a b rest low high second =>
    obtain ⟨least, most⟩ := second
    have := a.toNat_lt
    rw [if_neg (by omega), if_pos (by omega), @ofNat_eq a _ (by omega), @ofNat_eq b _ (by omega)]
    rfl
  | @three a b c rest low high second third notOverlong notSurrogate =>
    obtain ⟨least, most⟩ := second
    obtain ⟨least', most'⟩ := third
    rw [if_neg (by omega), if_neg (by omega), if_pos (by omega), @ofNat_eq a _ (by omega),
      @ofNat_eq b _ (by omega), @ofNat_eq c _ (by omega)]
    rfl
  | @four a b c d rest low high second third fourth notOverlong notBeyond =>
    obtain ⟨least, most⟩ := second
    obtain ⟨least', most'⟩ := third
    obtain ⟨least'', most''⟩ := fourth
    rw [if_neg (by omega), if_neg (by omega), if_neg (by omega), @ofNat_eq a _ (by omega),
      @ofNat_eq b _ (by omega), @ofNat_eq c _ (by omega), @ofNat_eq d _ (by omega)]
    rfl

/-! ## Whole texts -/

theorem decodeFrom_of_begins {offset n : Nat} {bytes rest : List UInt8}
    (begins : Begins bytes n rest) : ∃ further, decodeFrom offset bytes =
      (decodeFrom further rest).map (Char.ofNat n :: ·) := by
  obtain ⟨b, others, rfl⟩ : ∃ b others, bytes = b :: others := by cases begins <;> exact ⟨_, _, rfl⟩
  obtain ⟨lead, announced, complete⟩ := begins.complete
  rw [decodeFrom, announced]
  simp only
  split
  next cutOff => simp [complete] at cutOff
  next broken => simp [complete] at broken
  next completed =>
    obtain ⟨rfl, rfl⟩ := Tail.complete.inj (complete.symm.trans completed)
    exact ⟨_, rfl⟩

theorem decodeFrom_flatMap (text : List Char) (offset : Nat) :
    decodeFrom offset (text.flatMap String.utf8EncodeChar) = .ok text := by
  induction text generalizing offset with
  | nil => rw [List.flatMap_nil, decodeFrom]
  | cons c text ih =>
    obtain ⟨further, same⟩ := decodeFrom_of_begins (begins_utf8EncodeChar c _)
    rw [List.flatMap_cons, same, ih, Except.map, Char.ofNat_toNat]

theorem eq_flatMap_of_decodeFrom {offset : Nat} {bytes : List UInt8} {text : List Char}
    (decoded : decodeFrom offset bytes = .ok text) :
    bytes = text.flatMap String.utf8EncodeChar := by
  fun_induction decodeFrom offset bytes generalizing text with
  | case1 =>
    obtain rfl := Except.ok.inj decoded
    rfl
  | case2 => simp at decoded
  | case3 => simp at decoded
  | case4 => simp at decoded
  | case5 offset b others lead announced n rest complete ih =>
    cases decodedRest : decodeFrom (offset + 1 + lead.owed) rest with
    | error defect => simp [decodedRest, Except.map] at decoded
    | ok others =>
      rw [decodedRest, Except.map, Except.ok.injEq] at decoded
      obtain ⟨c, rfl, written⟩ := (begins_of_complete announced complete).exists_char
      rw [← decoded, Char.ofNat_toNat, List.flatMap_cons, ← ih decodedRest, written]

/-- What is accepted is what a text is written as, and no other text. -/
theorem decode_eq_ok_iff {bytes : List UInt8} {text : List Char} :
    decode bytes = .ok text ↔ bytes = text.flatMap String.utf8EncodeChar :=
  ⟨eq_flatMap_of_decodeFrom, fun written => written ▸ decodeFrom_flatMap text 0⟩

theorem toList_toUTF8 (text : String) :
    text.toUTF8.data.toList = text.toList.flatMap String.utf8EncodeChar := by
  have written := @String.toByteArray_ofList text.toList
  rw [String.ofList_toList] at written
  rw [String.toUTF8, written, List.utf8Encode]
  simp

theorem decode_toUTF8 (text : String) : decode text.toUTF8.data.toList = .ok text.toList := by
  rw [decode_eq_ok_iff, toList_toUTF8]

theorem decode_eq_ok_iff_toUTF8 {bytes : List UInt8} {text : List Char} :
    decode bytes = .ok text ↔ bytes = (String.ofList text).toUTF8.data.toList := by
  rw [decode_eq_ok_iff, toList_toUTF8, String.toList_ofList]

end Text.Utf8

/-! ## What stores decode -/

/-- A store of bytes hands out texts of its own making, and a text exactly if the bytes are its. -/
theorem Store.textAt_ofBytes_eq_ok_iff {read : String → Except Failure (Handed (List UInt8))}
    {path : String} {text : Handed String} :
    (ofBytes read).textAt path = .ok text ↔
      text.lent = false ∧ ∃ lent, read path = .ok ⟨text.value.toUTF8.data.toList, lent⟩ := by
  simp only [ofBytes, decoded]
  cases read path with
  | error failure => simp [bind, Except.bind]
  | ok bytes =>
    simp only [bind, Except.bind]
    constructor
    · intro handed
      split at handed
      next chars decoded =>
        obtain rfl := Except.ok.inj handed
        rw [← Text.Utf8.decode_eq_ok_iff_toUTF8.1 decoded]
        exact ⟨rfl, bytes.lent, rfl⟩
      next => cases handed
    · rintro ⟨own, lent, same⟩
      obtain rfl := Except.ok.inj same
      simp only [Text.Utf8.decode_toUTF8, String.ofList_toList]
      rw [← own]
      rfl

/-- The bytes of a memory decode to its texts. -/
theorem Memory.textAt_ofBytes (memory : Memory) (path : String) :
    (Store.ofBytes memory.store.bytesAt).textAt path =
      (memory.store.textAt path).map fun text => ⟨text.value, false⟩ := by
  cases found : memory.read path with
  | error failure =>
    simp only [Store.ofBytes, Store.decoded, store, found]
    rfl
  | ok content =>
    have bytes : memory.store.bytesAt path = .ok ⟨content.toUTF8.data.toList, true⟩ := by
      simp only [store, found]
      rfl
    have text : memory.store.textAt path = .ok ⟨content, true⟩ := by
      simp only [store, found]
      rfl
    rw [text]
    exact Store.textAt_ofBytes_eq_ok_iff.2 ⟨rfl, true, bytes⟩

theorem Disk.textAt_eq_ok_iff {disk : Disk} {path text : String} :
    disk.textAt path = .ok text ↔ disk.read path = .ok text.toUTF8.data.toList := by
  rw [textAt]
  cases disk.read path with
  | error failure => simp [bind, Except.bind]
  | ok bytes =>
    simp only [bind, Except.bind]
    constructor
    · intro readAs
      split at readAs
      next chars decoded =>
        obtain rfl := Except.ok.inj readAs
        rw [← Text.Utf8.decode_eq_ok_iff_toUTF8.1 decoded]
      next => cases readAs
    · intro same
      obtain rfl := Except.ok.inj same
      simp only [Text.Utf8.decode_toUTF8, String.ofList_toList]
      rfl

end Offside
