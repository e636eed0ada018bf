import TaggedSql.Proofs.Session.Origins
import TaggedSql.Proofs.Statement.Selection
import TaggedSql.Proofs.Token.Bodies

/-!
# The bytes of blobs

A blob is written with two hexadecimal digits for each byte. The lexer decides which texts are blobs,
and a tree reads the digits of a blob once more to tell its bytes. The two agree: what the lexer takes
for a blob has bytes, one for each pair of digits, and they are those that were written.

* `hexText`: the digits of bytes, each in upper or in lower case;
* `hexBytes?_hexText`: they are read back as the bytes;
* `Lexeme.kind_blob_iff`: which closed texts are blobs;
* `DecodesBlobs`, `RefusesMalformedBlobs`, `Tree.KnowsBytes`: blobs that are read, texts that are none,
  and the blobs of a tree;
* `parse_decodes_blobs`: all three hold.
-/

namespace TaggedSql

open Text

/-! ### Digits of bytes -/

/-- A hexadecimal digit in upper or in lower case. -/
def hexDigit (upper : Bool) (n : Nat) : Char :=
  if upper then n.digitChar.toUpper else n.digitChar

/-- The digits of bytes. For each byte it is chosen whether its two digits are in upper case. -/
def hexText : List (UInt8 × Bool × Bool) → List Char
  | [] => []
  | (b, high, low) :: bs =>
    hexDigit high (b.toNat / 16) :: hexDigit low (b.toNat % 16) :: hexText bs

theorem digitValue?_hexDigit (upper : Bool) {n : Nat} (h : n < 16) :
    digitValue? (hexDigit upper n) = some n := by
  have hall : ∀ upper : Bool, ∀ n < 16, digitValue? (hexDigit upper n) = some n := by decide
  exact hall upper n h

theorem digitValue?_high (b : UInt8) (upper : Bool) :
    digitValue? (hexDigit upper (b.toNat / 16)) = some (b.toNat / 16) := by
  have hb := b.toNat_lt
  exact digitValue?_hexDigit upper (by omega)

theorem digitValue?_low (b : UInt8) (upper : Bool) :
    digitValue? (hexDigit upper (b.toNat % 16)) = some (b.toNat % 16) :=
  digitValue?_hexDigit upper (by omega)

theorem isHexDigit_of_mem_hexText {bs : List (UInt8 × Bool × Bool)} :
    ∀ c ∈ hexText bs, isHexDigit c = true := by
  induction bs with
  | nil =>
    intro c hc
    cases hc
  | cons byte bs ih =>
    obtain ⟨b, high, low⟩ := byte
    intro c hc
    rcases List.mem_cons.1 hc with rfl | hc
    · rw [isHexDigit, digitValue?_high]
      rfl
    · rcases List.mem_cons.1 hc with rfl | hc
      · rw [isHexDigit, digitValue?_low]
        rfl
      · exact ih c hc

theorem length_hexText (bs : List (UInt8 × Bool × Bool)) :
    (hexText bs).length = 2 * bs.length := by
  induction bs with
  | nil => rfl
  | cons byte bs ih =>
    simp only [hexText, List.length_cons]
    omega

/-- The digits of bytes are read back as the bytes. -/
theorem hexBytes?_hexText (bs : List (UInt8 × Bool × Bool)) :
    hexBytes? (hexText bs) = some (bs.map Prod.fst) := by
  induction bs with
  | nil => rfl
  | cons byte bs ih =>
    obtain ⟨b, high, low⟩ := byte
    have hbyte : UInt8.ofNat (b.toNat / 16 * 16 + b.toNat % 16) = b := by
      rw [Nat.div_add_mod', UInt8.ofNat_toNat]
    rw [hexText, hexBytes?, hexByte?_of_digits (digitValue?_high b high) (digitValue?_low b low), hbyte,
      ih]
    rfl

/-! ### Closed texts behind the mark of a blob -/

namespace Lexeme

theorem throughQuote_closed {cs : List Char} (h : '\x27' ∉ cs) :
    throughQuote (cs ++ ['\x27']) = (cs ++ ['\x27'], []) := by
  induction cs with
  | nil => rfl
  | cons c cs ih =>
    have hc : c ≠ '\x27' := by
      rintro rfl
      exact h List.mem_cons_self
    rw [List.cons_append, throughQuote, if_neg hc, ih fun hcs => h (List.mem_cons_of_mem c hcs)]

/-- A closed text is taken up to its closing quote, and is a blob if it is made of pairs of digits. -/
theorem kind_blob_iff (mark : Char) {cs : List Char} (h : '\x27' ∉ cs) :
    (blob mark (cs ++ ['\x27'])).rest = [] ∧
      ((blob mark (cs ++ ['\x27'])).kind = .blob ↔
        (∀ c ∈ cs, isHexDigit c = true) ∧ cs.length % 2 = 0) := by
  have hquote : ¬ isHexDigit '\x27' = true := by decide
  by_cases hdigits : ∀ c ∈ cs, isHexDigit c = true
  · have htake : (cs ++ ['\x27']).takeWhile isHexDigit = cs := by
      rw [List.takeWhile_append_of_pos hdigits, List.takeWhile_cons_of_neg hquote, List.append_nil]
    have hdrop : (cs ++ ['\x27']).dropWhile isHexDigit = ['\x27'] := by
      rw [List.dropWhile_append_of_pos hdigits, List.dropWhile_cons_of_neg hquote]
    unfold blob
    rw [htake, hdrop]
    dsimp only
    rw [if_pos rfl]
    by_cases heven : cs.length % 2 = 0
    · rw [if_pos heven]
      exact ⟨rfl, iff_of_true rfl ⟨hdigits, heven⟩⟩
    · rw [if_neg heven]
      exact ⟨rfl, iff_of_false Kind.noConfusion fun hpairs => heven hpairs.2⟩
  · -- The first character that is no digit spoils the text up to the closing quote.
    have hspoiled : cs.dropWhile isHexDigit ≠ [] := by
      intro hnil
      exact hdigits (List.dropWhile_eq_nil_iff.1 hnil)
    obtain ⟨c, rest, hdropped⟩ := List.exists_cons_of_ne_nil hspoiled
    have hsubset : ∀ d ∈ c :: rest, d ∈ cs := by
      rw [← hdropped]
      exact fun d hd => (List.dropWhile_sublist _).subset hd
    have hdrop : (cs ++ ['\x27']).dropWhile isHexDigit = c :: (rest ++ ['\x27']) := by
      rw [List.dropWhile_append, hdropped]
      rfl
    have hc : c ≠ '\x27' := by
      rintro rfl
      exact h (hsubset _ List.mem_cons_self)
    have hthrough : throughQuote (c :: (rest ++ ['\x27'])) = (c :: (rest ++ ['\x27']), []) :=
      throughQuote_closed fun hmem => h (hsubset _ hmem)
    unfold blob
    rw [hdrop]
    dsimp only
    rw [if_neg hc, hthrough]
    exact ⟨rfl, iff_of_false Kind.noConfusion fun hpairs => hdigits hpairs.1⟩

/-- A closed text behind the mark of a blob is one lexeme. -/
theorem readsBefore_blob (policy : OverflowPolicy) {mark : Char} (hmark : mark = 'X' ∨ mark = 'x')
    {cs : List Char} (h : '\x27' ∉ cs) :
    (blob mark (cs ++ ['\x27'])).ReadsBefore policy [] := by
  have hrest := (kind_blob_iff mark h).1
  have hreads := (blob_reads mark (cs ++ ['\x27'])).taken_append_rest
  rw [hrest, List.append_nil] at hreads
  refine ⟨hrest, mark, '\x27' :: (cs ++ ['\x27']), ?_, ?_, ?_⟩
  · rw [List.append_nil, hreads]
  · rcases hmark with rfl | rfl <;> exact Gap.read_of_isAbsent rfl
  · have hread : Lexeme.read policy mark ('\x27' :: (cs ++ ['\x27'])) = blob mark (cs ++ ['\x27']) := by
      rcases hmark with rfl | rfl <;> rfl
    rw [hread, extended, List.append_nil]

end Lexeme

/-! ### Sources and trees -/

/-- A text between quotes behind the mark of a blob. -/
def blobText (mark : Char) (cs : List Char) : String :=
  String.ofList (mark :: '\x27' :: (cs ++ ['\x27']))

/-- A blob is the only column of a query, and has the bytes that were written. -/
def DecodesBlobs (settings : Settings) : Prop :=
  ∀ mark : Char, mark = 'X' ∨ mark = 'x' → ∀ bs : List (UInt8 × Bool × Bool),
    ∃ t id, parse settings ("SELECT " ++ blobText mark (hexText bs)) = .ok t ∧
      t.Selects id (.blob (String.ofList (hexText bs))) ∧ t.bytes? id = some (bs.map Prod.fst)

/-- A closed text behind the mark of a blob is one token, which is a blob exactly if the text is made of
pairs of hexadecimal digits. -/
def RefusesMalformedBlobs (policy : OverflowPolicy) : Prop :=
  ∀ mark : Char, mark = 'X' ∨ mark = 'x' → ∀ cs : List Char, '\x27' ∉ cs →
    ∃ token stop, tokenize policy (blobText mark cs) = [token, Token.endAt stop] ∧
      (token.kind = .blob ↔ (∀ c ∈ cs, isHexDigit c = true) ∧ cs.length % 2 = 0)

/-- Every blob of a tree is made of hexadecimal digits and has bytes, one for each two digits. -/
def Tree.KnowsBytes (t : Tree) : Prop :=
  ∀ id span, t.node? id = some (.blob span) →
    ∃ text bytes, t.text? id = some text ∧ t.bytes? id = some bytes ∧
      (∀ c ∈ text.toList, isHexDigit c = true) ∧ bytes.length = text.length / 2 ∧ text.length % 2 = 0

theorem decodesBlobs {settings : Settings} (hdepth : 2 ≤ settings.maxDepth) :
    DecodesBlobs settings := by
  intro mark hmark bs
  have heven : (hexText bs).length % 2 = 0 := by
    rw [length_hexText]
    omega
  obtain ⟨t, id, hparse, _, hselects⟩ := selects_operand hdepth
    (Spelling.blob mark hmark (hexText bs) isHexDigit_of_mem_hexText heven).alone.readsBefore rfl
  refine ⟨t, id, hparse, hselects, ?_⟩
  obtain ⟨span, hnode, hslice⟩ := hselects.column.covers
  have hblob : t.node? id = some (.blob span) := hnode
  rw [Tree.bytes?, hblob]
  show hexBytes? (span.slice t.source).toList = _
  rw [hslice, String.toList_ofList]
  exact hexBytes?_hexText bs

theorem refusesMalformedBlobs (policy : OverflowPolicy) : RefusesMalformedBlobs policy := by
  intro mark hmark cs h
  have htaken := (Lexeme.blob_reads mark (cs ++ ['\x27'])).taken_append_rest
  rw [(Lexeme.kind_blob_iff mark h).1] at htaken
  have hlined : Lined policy [Lexeme.blob mark (cs ++ ['\x27'])]
      (mark :: '\x27' :: (cs ++ ['\x27'])) := by
    rw [← htaken]
    exact .cons [] (Lexeme.readsBefore_blob policy hmark h) .nil
  obtain ⟨ts, stop, hstream, hbare⟩ := hlined.exists_stream
  obtain ⟨token, more, rfl, htoken, hmore⟩ := List.map_eq_cons_iff.1 hbare
  obtain rfl := List.map_eq_nil_iff.1 hmore
  have hkind : token.kind = (Lexeme.blob mark (cs ++ ['\x27'])).kind := congrArg Prod.fst htoken
  refine ⟨token, stop, ?_, ?_⟩
  · rw [tokenize_eq, blobText, hstream]
    rfl
  · rw [hkind]
    exact (Lexeme.kind_blob_iff mark h).2

theorem Tree.DrawnFrom.knowsBytes {policy : OverflowPolicy} {source : String} {t : Tree}
    (h : t.DrawnFrom source (tokenize policy source)) : t.KnowsBytes := by
  intro id span hnode
  have htext := h.text?_eq hnode rfl
  have hbytes : t.bytes? id = hexBytes? (span.slice source).toList := by
    rw [bytes?, hnode, h.source]
  cases h.node hnode rfl with
  | @blob w hw hkind =>
    obtain ⟨before, x, hread, hdigits, heven⟩ :=
      exists_lexeme_of_mem_tokenize hw hkind rfl Kind.noConfusion
    obtain ⟨bytes, hpairs, hlength⟩ := exists_hexBytes? hdigits heven
    rw [slice_of_mem_tokenize hw, hread.text] at htext hbytes
    rw [String.toList_ofList, hpairs] at hbytes
    refine ⟨_, bytes, htext, hbytes, ?_, ?_⟩
    · rw [String.toList_ofList]
      exact hdigits
    · rw [String.length_ofList]
      exact ⟨hlength, heven⟩

/-- Blobs are decoded to the bytes that were written, only pairs of hexadecimal digits make a blob, and
every blob of a tree has bytes. -/
theorem parse_decodes_blobs (settings : Settings) :
    (2 ≤ settings.maxDepth → DecodesBlobs settings) ∧ RefusesMalformedBlobs settings.overflow ∧
      (∀ source t, parse settings source = .ok t → t.KnowsBytes) ∧
      ∀ source trees, parseScript settings source = .ok trees → ∀ t ∈ trees, t.KnowsBytes := by
  refine ⟨decodesBlobs, refusesMalformedBlobs settings.overflow, ?_, ?_⟩
  · intro source t h
    exact (drawn_of_parse h).knowsBytes
  · intro source trees h t ht
    exact (drawn_of_parseScript h ht).knowsBytes

/-- Two bytes in mixed cases behind a small mark, a plus sign before a digit, and the empty blob of
another statement. -/
theorem parse_decodes_blobs_mixed :
    (∃ t id, parse {} "SELECT x'fFA0'" = .ok t ∧ t.bytes? id = some [255, 160]) ∧
    (∃ token stop, tokenize .promote "X'+1'" = [token, Token.endAt stop] ∧ token.kind ≠ .blob) ∧
    ∃ t, parse {} "DELETE FROM t WHERE b = X''" = .ok t ∧ t.KnowsBytes := by
  obtain ⟨hdecodes, hrefuses, hknows, _⟩ := parse_decodes_blobs {}
  refine ⟨?_, ?_, ?_⟩
  · obtain ⟨t, id, hparse, _, hbytes⟩ :=
      hdecodes (by decide) 'x' (.inr rfl) [(255, false, true), (160, true, false)]
    have hsource : "SELECT " ++ blobText 'x' (hexText [(255, false, true), (160, true, false)]) =
        "SELECT x'fFA0'" := by decide +kernel
    rw [hsource] at hparse
    exact ⟨t, id, hparse, hbytes⟩
  · obtain ⟨token, stop, htokens, hblob⟩ := hrefuses 'X' (.inl rfl) ['+', '1'] (by decide)
    have hsource : blobText 'X' ['+', '1'] = "X'+1'" := by decide +kernel
    rw [hsource] at htokens
    refine ⟨token, stop, htokens, ?_⟩
    intro hkind
    have hplus := (hblob.1 hkind).1 '+' List.mem_cons_self
    exact absurd hplus (by decide)
  · have hread : (parse {} "DELETE FROM t WHERE b = X''").toOption.isSome = true := by decide +kernel
    obtain ⟨t, ht⟩ := Option.isSome_iff_exists.1 hread
    have hparse := eq_ok_of_toOption ht
    exact ⟨t, hparse, hknows _ t hparse⟩

end TaggedSql
