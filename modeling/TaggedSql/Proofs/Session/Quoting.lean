import TaggedSql.Proofs.Session.Origins
import TaggedSql.Proofs.Statement.Selection
import TaggedSql.Proofs.Token.Bodies

/-!
# Quotes inside names and strings

A quote inside a quoted text is written twice, and a tree makes it single again. For strings and for
names between quotes the two are inverse to each other. A tree does not keep whether a name was written
between quotes: it looks at the character before the name. For a plain name this can be the quote that
ends the token before, which matters as soon as the text of the name has a doubled quote in it. Only
the name of a type can have one, in a comment between its words.

* `Span.Follows`, `Span.Between`: quotes right before a span, and around it;
* `RestoresQuotes`: what is written with doubled quotes is read back;
* `Tree.KeepsQuotes`: what is read was written with doubled quotes;
* `parse_inverts_quoting`: both hold of the trees of a session;
* `unescaped_eq_text_iff`: when the text of a name that was not quoted is left alone.
-/

namespace TaggedSql

open Text

/-! ### Quotes before a span -/

namespace Span

/-- A quote stands right before the span. -/
def Follows (s : Span) (source : String) (q : Quote) : Prop :=
  ∃ before after, source.toList = before ++ q.char :: after ∧ s.start = width (before ++ [q.char])

/-- The span covers what stands between two quotes. -/
def Between (s : Span) (source : String) (q : Quote) : Prop :=
  ∃ before after, source.toList = before ++ q.char :: ((s.slice source).toList ++ q.char :: after) ∧
    s.start = width (before ++ [q.char])

/-- The span begins between two characters of the source. -/
def Begins (s : Span) (source : String) : Prop :=
  ∃ before after, source.toList = before ++ after ∧ s.start = width before

variable {s : Span} {source : String} {q : Quote}

theorem Between.follows (h : s.Between source q) : s.Follows source q := by
  obtain ⟨before, after, hsource, hstart⟩ := h
  exact ⟨before, _, hsource, hstart⟩

theorem Follows.takeBytes? (h : s.Follows source q) :
    ∃ before, takeBytes? source.toList s.start = some (before ++ [q.char]) := by
  obtain ⟨before, after, hsource, hstart⟩ := h
  refine ⟨before, ?_⟩
  rw [hsource, hstart, ← takeBytes?_append (before ++ [q.char]) after, List.append_assoc]
  rfl

theorem Follows.quoteBefore? (h : s.Follows source q) :
    Tree.quoteBefore? source.toList s = .ok (some q.char) := by
  obtain ⟨before, hbefore⟩ := h.takeBytes?
  have hquote : (q.char == '\x22' || q.char == '\x60') = true := by cases q <;> decide
  rw [Tree.quoteBefore?, hbefore]
  show Except.ok ((before ++ [q.char]).getLast?.filter _) = _
  rw [List.getLast?_concat, Option.filter_some, if_pos hquote]

/-- Only one quote can stand right before a span. -/
theorem Follows.unique {q' : Quote} (h : s.Follows source q) (h' : s.Follows source q') :
    q.char = q'.char := by
  have hsame := h.quoteBefore?.symm.trans h'.quoteBefore?
  exact Option.some.inj (Except.ok.inj hsame)

/-- Where no quote stands right before a span, none is found. -/
theorem Begins.quoteBefore? (h : s.Begins source) (hnone : ∀ q, ¬ s.Follows source q) :
    Tree.quoteBefore? source.toList s = .ok none := by
  obtain ⟨before, after, hsource, hstart⟩ := h
  have htake : takeBytes? source.toList s.start = some before := by
    rw [hsource, hstart, takeBytes?_append]
  rw [Tree.quoteBefore?, htake]
  show Except.ok (before.getLast?.filter _) = _
  congr 1
  rw [Option.filter_eq_none_iff]
  -- A quote at the end of the text before the span would stand right before it.
  intro c hc hquote
  obtain ⟨front, rfl⟩ := List.getLast?_eq_some_iff.1 hc
  have hfollows : ∀ q : Quote, c = q.char → False := by
    rintro q rfl
    exact hnone q ⟨front, after, by rw [hsource, List.append_assoc]; rfl, hstart⟩
  rcases Bool.or_eq_true_iff.1 hquote with hdouble | hbacktick
  · exact hfollows .double (eq_of_beq hdouble)
  · exact hfollows .backtick (eq_of_beq hbacktick)

end Span

/-! ### The text of names and strings -/

namespace Tree

variable {t : Tree} {id : NodeId} {span : Span}

theorem unescaped_string (h : t.node? id = some (.string span)) :
    t.unescaped id = .ok (some (String.ofList (undouble '\x27' (span.slice t.source).toList))) := by
  rw [unescaped, h]

/-- Behind a quote the doubled quotes of a name are made single. -/
theorem unescaped_of_follows (h : t.node? id = some (.name span)) {q : Quote}
    (hq : span.Follows t.source q) :
    t.unescaped id = .ok (some (String.ofList (undouble q.char (span.slice t.source).toList))) := by
  rw [unescaped, h]
  show (quoteBefore? t.source.toList span >>= _) = _
  rw [hq.quoteBefore?]
  rfl

theorem unescaped_of_not_follows (h : t.node? id = some (.name span)) (hbegins : span.Begins t.source)
    (hnone : ∀ q, ¬ span.Follows t.source q) :
    t.unescaped id = .ok (some (span.slice t.source)) := by
  rw [unescaped, h]
  show (quoteBefore? t.source.toList span >>= _) = _
  rw [hbegins.quoteBefore? hnone]
  rfl

/-- The text of a name is changed exactly if the quote right before it is doubled in it. -/
theorem exists_unescaped (h : t.node? id = some (.name span)) (hbegins : span.Begins t.source) :
    ∃ u, t.unescaped id = .ok (some u) ∧
      (u ≠ span.slice t.source ↔ ∃ q : Quote, span.Follows t.source q ∧
        [q.char, q.char] <:+: (span.slice t.source).toList) := by
  by_cases hfollows : ∃ q, span.Follows t.source q
  · obtain ⟨q, hq⟩ := hfollows
    refine ⟨_, unescaped_of_follows h hq, ?_⟩
    rw [ne_eq, ← String.toList_inj, String.toList_ofList, undouble_eq_self_iff, not_not]
    constructor
    · intro hinfix
      exact ⟨q, hq, hinfix⟩
    · rintro ⟨q', hq', hinfix⟩
      rwa [hq.unique hq']
  · have hnone : ∀ q, ¬ span.Follows t.source q := not_exists.1 hfollows
    refine ⟨_, unescaped_of_not_follows h hbegins hnone, ?_⟩
    constructor
    · intro hne
      exact absurd rfl hne
    · rintro ⟨q, hq, _⟩
      exact absurd hq (hnone q)

end Tree

/-! ### Trees and the tokens of their sources -/

section Origins

variable {policy : OverflowPolicy} {source : String} {t : Tree} {id : NodeId} {span : Span}

/-- The text of a token begins between two characters. -/
theorem begins_of_mem_tokenize {w : Token} {k : Kind} (hw : w ∈ tokenize policy source)
    (hk : w.kind = k) (hspelled : k.isProblem = false) (hend : k ≠ .endOfInput) :
    w.span.Begins source := by
  obtain ⟨before, x, hread, _⟩ := exists_lexeme_of_mem_tokenize hw hk hspelled hend
  refine ⟨before ++ x.opening, x.body ++ x.closing ++ x.rest, ?_, ?_⟩
  · rw [hread.source, Lexeme.taken]
    simp
  · rw [hread.span]

theorem Kind.exists_of_isIdentifier {k : Kind} (h : k.isIdentifier = true) :
    ∃ quoted, k = .identifier quoted := by
  cases k with
  | identifier quoted => exact ⟨quoted, rfl⟩
  | _ => cases h

/-- The characters of a word are no quotes. -/
theorem Quote.continuesWord_char (q : Quote) : Lexeme.continuesWord q.char = false := by
  cases q <;> decide

/-- The token of a quoted name, and the quotes around it. -/
theorem between_of_mem_tokenize {w : Token} (hw : w ∈ tokenize policy source)
    (hkind : w.kind = .identifier true) :
    ∃ q : Quote, w.span.Between source q ∧
      double q.char (undouble q.char w.text.toList) = w.text.toList := by
  have hslice := slice_of_mem_tokenize hw
  obtain ⟨before, x, hread, _, quote, hquote, hopening, hclosing, hdouble⟩ :=
    exists_lexeme_of_mem_tokenize hw hkind rfl Kind.noConfusion
  obtain ⟨q, rfl⟩ : ∃ q : Quote, q.char = quote := by
    rcases List.mem_cons.1 hquote with rfl | hquote
    · exact ⟨.double, rfl⟩
    · exact ⟨.backtick, (List.mem_singleton.1 hquote).symm⟩
  have htext : w.text.toList = x.body := by
    rw [hread.text, String.toList_ofList]
  refine ⟨q, ⟨before, x.rest, ?_, ?_⟩, ?_⟩
  · rw [hslice, htext, hread.source, Lexeme.taken, hopening, hclosing]
    simp
  · rw [hread.span, hopening]
  · rw [htext]
    exact hdouble

/-- What a tree says of strings and of quoted names was written with doubled quotes. The tokens are
those of its source. -/
structure Tree.KeepsQuotes (t : Tree) (ts : List Token) : Prop where
  string (id : NodeId) (span : Span) (h : t.node? id = some (.string span)) :
    ∃ u : String, t.unescaped id = .ok (some u) ∧
      t.text? id = some (String.ofList (double '\x27' u.toList))
  name (id : NodeId) (w : Token) (hw : w ∈ ts) (hquoted : w.kind = .identifier true)
    (h : t.node? id = some (.name w.span)) :
    ∃ q : Quote, w.span.Between t.source q ∧ ∃ u : String, t.unescaped id = .ok (some u) ∧
      t.text? id = some (String.ofList (double q.char u.toList))

theorem Tree.DrawnFrom.keepsQuotes (h : t.DrawnFrom source (tokenize policy source)) :
    t.KeepsQuotes (tokenize policy source) where
  string id span hnode := by
    refine ⟨_, unescaped_string hnode, ?_⟩
    rw [h.text?_eq hnode rfl, String.toList_ofList, h.source]
    cases h.node hnode rfl with
    | @string w hw hkind =>
      obtain ⟨before, x, hread, hdouble⟩ :=
        exists_lexeme_of_mem_tokenize hw hkind rfl Kind.noConfusion
      rw [slice_of_mem_tokenize hw, hread.text, String.toList_ofList]
      exact congrArg (some ∘ String.ofList) hdouble.symm
  name id w hw hquoted hnode := by
    obtain ⟨q, hbetween, hdouble⟩ := between_of_mem_tokenize hw hquoted
    rw [← h.source] at hbetween
    refine ⟨q, hbetween, _, unescaped_of_follows hnode hbetween.follows, ?_⟩
    rw [h.text?_eq hnode rfl, String.toList_ofList, h.source, slice_of_mem_tokenize hw, hdouble,
      String.ofList_toList]

/-- A name begins between two characters, whatever tokens it is drawn from. -/
theorem Tree.DrawnFrom.begins (h : t.DrawnFrom source (tokenize policy source))
    (hnode : t.node? id = some (.name span)) : span.Begins source := by
  cases h.node hnode rfl with
  | @name w hw hkind =>
    obtain ⟨quoted, hkind⟩ := Kind.exists_of_isIdentifier hkind
    exact begins_of_mem_tokenize hw hkind rfl Kind.noConfusion
  | @parameter w hw hkind => exact begins_of_mem_tokenize hw hkind rfl Kind.noConfusion
  | @type w words hwords hplain =>
    -- Only the first word of a type matters.
    have hw := hwords.subset List.mem_cons_self
    exact begins_of_mem_tokenize hw (hplain w List.mem_cons_self) rfl Kind.noConfusion

/-- A single word has no quotes in it. -/
theorem not_infix_of_mem_tokenize {w : Token} (hw : w ∈ tokenize policy source)
    (hkind : w.kind = .identifier false ∨ w.kind = .parameter true) (q : Quote) :
    ¬ [q.char, q.char] <:+: (w.span.slice source).toList := by
  obtain ⟨before, x, hread, hname⟩ : ∃ before x, w.ReadAs source before x ∧ Lexeme.IsName x.body := by
    rcases hkind with hkind | hkind
    · exact exists_lexeme_of_mem_tokenize hw hkind rfl Kind.noConfusion
    · exact exists_lexeme_of_mem_tokenize hw hkind rfl Kind.noConfusion
  rw [slice_of_mem_tokenize hw, hread.text, String.toList_ofList]
  exact hname.not_infix q.continuesWord_char

end Origins

/-! ### Doubled quotes in a source -/

/-- A text between quotes, with each quote in it doubled. -/
def quotedText (quote : Char) (s : String) : String :=
  String.ofList (quote :: (double quote s.toList ++ [quote]))

/-- Strings and names that are written with doubled quotes are read back, each as the only column of a
query. -/
structure RestoresQuotes (settings : Settings) : Prop where
  string (s : String) :
    ∃ t id, parse settings ("SELECT " ++ quotedText '\x27' s) = .ok t ∧
      t.Selects id (.string (String.ofList (double '\x27' s.toList))) ∧
      t.unescaped id = .ok (some s)
  name (q : Quote) (s : String) (hs : s ≠ "") :
    ∃ t id, parse settings ("SELECT " ++ quotedText q.char s) = .ok t ∧
      t.Selects id (.name (String.ofList (double q.char s.toList))) ∧
      t.unescaped id = .ok (some s)

/-- The tokens of the word `SELECT` and a spelling. -/
theorem mem_tokenize_selection {policy : OverflowPolicy} {x : Spelling} {w : Token}
    (hw : w ∈ tokenize policy ("SELECT " ++ String.ofList x.text)) :
    w.kind = .word .SELECT ∨ w = x.tokenAt 7 ∨ w.kind = .endOfInput := by
  have htokens := Lexer.tokens_joined policy
    [.reserved .SELECT ['S', 'E', 'L', 'E', 'C', 'T'] (by decide), x] 0 []
    fun _ => ⟨' ', by decide, []⟩
  have hsource : ("SELECT " ++ String.ofList x.text).toList = Spelling.joined [] (fun _ =>
      ⟨' ', by decide, []⟩) [.reserved .SELECT ['S', 'E', 'L', 'E', 'C', 'T'] (by decide), x] := by
    show _ = "SELECT ".toList ++ (x.text ++ [])
    rw [String.toList_append, String.toList_ofList (l := x.text), List.append_nil]
  rw [← hsource] at htokens
  have hmem : w ∈ (Lexer.mk policy 0 ("SELECT " ++ String.ofList x.text).toList).tokens := hw
  rw [htokens] at hmem
  rcases List.mem_append.1 hmem with hlayout | hend
  · rcases List.mem_cons.1 hlayout with rfl | hlayout
    · exact .inl rfl
    · exact .inr (.inl (List.mem_singleton.1 hlayout))
  · rw [List.mem_singleton.1 hend]
    exact .inr (.inr rfl)

/-- The only name in a selection of a quoted name follows its quote. -/
theorem follows_of_selection {policy : OverflowPolicy} {q : Quote} {content : List Char}
    (hfull : content ≠ []) {span : Span} (hname : (Node.name span).DrawnFrom
      (tokenize policy ("SELECT " ++ String.ofList (Spelling.quoted q content hfull).text))) :
    span.Follows ("SELECT " ++ String.ofList (Spelling.quoted q content hfull).text) q := by
  have hstarts : ∀ w ∈ tokenize policy
      ("SELECT " ++ String.ofList (Spelling.quoted q content hfull).text), ∀ k, w.kind = k →
      k ≠ .word .SELECT → k ≠ .endOfInput → w.span.start = 7 + width [q.char] := by
    intro w hw k hk hselect hend
    rcases mem_tokenize_selection hw with hword | rfl | hlast
    · exact absurd (hk.symm.trans hword) hselect
    · rfl
    · exact absurd (hk.symm.trans hlast) hend
  have hstart : span.start = 7 + width [q.char] := by
    cases hname with
    | @name w hw hkind =>
      obtain ⟨quoted, hkind⟩ := Kind.exists_of_isIdentifier hkind
      exact hstarts w hw _ hkind Kind.noConfusion Kind.noConfusion
    | @parameter w hw hkind => exact hstarts w hw _ hkind Kind.noConfusion Kind.noConfusion
    | @type w words hwords hplain =>
      have hkind := hplain w List.mem_cons_self
      exact hstarts w (hwords.subset List.mem_cons_self) _ hkind Kind.noConfusion Kind.noConfusion
  have hbefore : width "SELECT ".toList = 7 := by decide
  refine ⟨"SELECT ".toList, double q.char content ++ [q.char], ?_, ?_⟩
  · rw [String.toList_append, String.toList_ofList (l := (Spelling.quoted q content hfull).text)]
    rfl
  · rw [hstart, width_append, hbefore]

theorem restoresQuotes {settings : Settings} (hdepth : 2 ≤ settings.maxDepth) :
    RestoresQuotes settings where
  string s := by
    obtain ⟨t, id, hparse, _, hselects⟩ :=
      selects_operand hdepth (Spelling.string s.toList).alone.readsBefore rfl
    refine ⟨t, id, hparse, hselects, ?_⟩
    obtain ⟨span, hnode, hslice⟩ := hselects.column.covers
    rw [Tree.unescaped_string hnode, hslice, String.toList_ofList]
    show Except.ok (some (String.ofList (undouble '\x27' (double '\x27' s.toList)))) = _
    rw [undouble_double, String.ofList_toList]
  name q s hs := by
    have hfull : s.toList ≠ [] := by
      intro hnil
      exact hs (String.toList_eq_nil_iff.1 hnil)
    obtain ⟨t, id, hparse, hsource, hselects⟩ :=
      selects_operand hdepth (Spelling.quoted q s.toList hfull).alone.readsBefore rfl
    refine ⟨t, id, hparse, hselects, ?_⟩
    obtain ⟨span, hnode, hslice⟩ := hselects.column.covers
    have hfollows := follows_of_selection hfull ((drawn_of_parse hparse).node hnode rfl)
    have hfollows' : span.Follows t.source q := hsource ▸ hfollows
    rw [Tree.unescaped_of_follows hnode hfollows', hslice, String.toList_ofList]
    show Except.ok (some (String.ofList (undouble q.char (double q.char s.toList)))) = _
    rw [undouble_double, String.ofList_toList]

/-- Doubling quotes and making them single are inverse to each other: what is written with doubled
quotes is read back, and every string and quoted name of a tree was written so. -/
theorem parse_inverts_quoting (settings : Settings) :
    (2 ≤ settings.maxDepth → RestoresQuotes settings) ∧
      (∀ source t, parse settings source = .ok t →
        t.KeepsQuotes (tokenize settings.overflow source)) ∧
      ∀ source trees, parseScript settings source = .ok trees →
        ∀ t ∈ trees, t.KeepsQuotes (tokenize settings.overflow source) := by
  refine ⟨restoresQuotes, ?_, ?_⟩
  · intro source t h
    exact (drawn_of_parse h).keepsQuotes
  · intro source trees h t ht
    exact (drawn_of_parseScript h ht).keepsQuotes

/-- A string with a quote in it that is read back, and a name with a quote at its end. -/
theorem parse_inverts_quoting_end :
    (∃ t id, parse {} ("SELECT " ++ quotedText '\x27' "it's") = .ok t ∧
      t.unescaped id = .ok (some "it's")) ∧
    ∃ t, parse {} "SELECT \"a\"\"\"" = .ok t ∧ t.node? 1 = some (.name ⟨8, 11⟩) ∧
      ∃ q : Quote, Span.Between ⟨8, 11⟩ t.source q ∧ ∃ u : String, t.unescaped 1 = .ok (some u) ∧
        t.text? 1 = some (String.ofList (double q.char u.toList)) := by
  obtain ⟨hrestores, hkeeps, _⟩ := parse_inverts_quoting {}
  constructor
  · obtain ⟨t, id, hparse, _, hunescaped⟩ := (hrestores (by decide)).string "it's"
    exact ⟨t, id, hparse, hunescaped⟩
  · have hread : ((parse {} "SELECT \"a\"\"\"").toOption.map fun t => t.node? 1) =
        some (some (.name ⟨8, 11⟩)) := by decide +kernel
    have htoken : (⟨.identifier true, ⟨8, 11⟩, "a\"\""⟩ : Token) ∈
        tokenize .promote "SELECT \"a\"\"\"" := by decide +kernel
    obtain ⟨t, ht, hnode⟩ := Option.map_eq_some_iff.1 hread
    have hparse := eq_ok_of_toOption ht
    have hname := (hkeeps "SELECT \"a\"\"\"" t hparse).name 1 _ htoken rfl hnode
    exact ⟨t, hparse, hnode, hname⟩

/-! ### Names that are not quoted -/

/-- The text of a name that was not written between quotes is changed exactly if the character right
before it is a quote that the text has twice in a row. Words and the names of parameters have no quotes,
so this can only be the name of a type of several words, with a comment between them. -/
theorem unescaped_ne_text_iff {settings : Settings} {source : String} {t : Tree}
    (h : parse settings source = .ok t) {id : NodeId} {span : Span}
    (hnode : t.node? id = some (.name span))
    (hplain : ∀ w ∈ tokenize settings.overflow source, w.kind = .identifier true → w.span ≠ span) :
    ∃ text u, t.text? id = some text ∧ t.unescaped id = .ok (some u) ∧
      (u ≠ text ↔ ∃ q : Quote, span.Follows source q ∧ [q.char, q.char] <:+: text.toList) ∧
      (u ≠ text → ∃ first words, words ≠ [] ∧ first :: words <:+: tokenize settings.overflow source ∧
        (∀ w ∈ first :: words, w.kind = .identifier false) ∧
        span = ⟨first.span.start, Token.lastStop first.span.stop words⟩) := by
  have hdrawn := drawn_of_parse h
  obtain ⟨u, hunescaped, hiff⟩ :=
    Tree.exists_unescaped hnode (hdrawn.source.symm ▸ hdrawn.begins hnode)
  rw [hdrawn.source] at hiff
  refine ⟨span.slice source, u, hdrawn.text?_eq hnode rfl, hunescaped, hiff, ?_⟩
  intro hne
  obtain ⟨q, _, hinfix⟩ := hiff.1 hne
  cases hdrawn.node hnode rfl with
  | @name w hw hkind =>
    obtain ⟨quoted, hkind⟩ := Kind.exists_of_isIdentifier hkind
    cases quoted with
    | true => exact absurd rfl (hplain w hw hkind)
    | false => exact absurd hinfix (not_infix_of_mem_tokenize hw (.inl hkind) q)
  | @parameter w hw hkind => exact absurd hinfix (not_infix_of_mem_tokenize hw (.inr hkind) q)
  | @type first words hwords hwordsPlain =>
    refine ⟨first, words, ?_, hwords, hwordsPlain, rfl⟩
    rintro rfl
    have hkind := hwordsPlain first List.mem_cons_self
    exact not_infix_of_mem_tokenize (hwords.subset List.mem_cons_self) (.inl hkind) q hinfix

/-- The name `b` stands right behind a quote, and is left alone. -/
theorem unescaped_ne_text_iff_label :
    ∃ t, parse {} "SELECT \"a\"b" = .ok t ∧ t.node? 2 = some (.name ⟨10, 11⟩) ∧
      ∃ u, t.unescaped 2 = .ok (some u) ∧
        (u ≠ "b" ↔ ∃ q : Quote, Span.Follows ⟨10, 11⟩ "SELECT \"a\"b" q ∧
          [q.char, q.char] <:+: "b".toList) := by
  have hread : ((parse {} "SELECT \"a\"b").toOption.map fun t => (t.node? 2, t.text? 2)) =
      some (some (.name ⟨10, 11⟩), some "b") := by decide +kernel
  have htokens : ∀ w ∈ tokenize .promote "SELECT \"a\"b",
      w.kind = .identifier true → w.span ≠ ⟨10, 11⟩ := by decide +kernel
  obtain ⟨t, ht, hvalues⟩ := Option.map_eq_some_iff.1 hread
  obtain ⟨hnode, hb⟩ := Prod.mk.inj hvalues
  have hparse := eq_ok_of_toOption ht
  obtain ⟨text, u, htext, hunescaped, hiff, _⟩ := unescaped_ne_text_iff hparse hnode htokens
  obtain rfl := Option.some.inj (htext.symm.trans hb)
  exact ⟨t, hparse, hnode, u, hunescaped, hiff⟩

/-- A type of two words with a comment between them, right behind a quoted name: the doubled quote of
the comment is made single. -/
theorem unescaped_type_behind_quote :
    ∃ t, parse {} "CREATE TABLE t (\"a\"b/*\"\"*/c)" = .ok t ∧
      t.node? 3 = some (.name ⟨19, 27⟩) ∧
      (∀ w ∈ tokenize .promote "CREATE TABLE t (\"a\"b/*\"\"*/c)",
        w.kind = .identifier true → w.span ≠ ⟨19, 27⟩) ∧
      t.text? 3 = some "b/*\"\"*/c" ∧ t.unescaped 3 = .ok (some "b/*\"*/c") := by
  have hread : ((parse {} "CREATE TABLE t (\"a\"b/*\"\"*/c)").toOption.map fun t =>
      (t.node? 3, t.text? 3, (t.unescaped 3).toOption)) =
        some (some (.name ⟨19, 27⟩), some "b/*\"\"*/c", some (some "b/*\"*/c")) := by
    decide +kernel
  have htokens : ∀ w ∈ tokenize .promote "CREATE TABLE t (\"a\"b/*\"\"*/c)",
      w.kind = .identifier true → w.span ≠ ⟨19, 27⟩ := by decide +kernel
  obtain ⟨t, ht, hvalues⟩ := Option.map_eq_some_iff.1 hread
  obtain ⟨hnode, hvalues⟩ := Prod.mk.inj hvalues
  obtain ⟨htext, hunescaped⟩ := Prod.mk.inj hvalues
  exact ⟨t, eq_ok_of_toOption ht, hnode, htokens, htext, eq_ok_of_toOption hunescaped⟩

end TaggedSql
