/-
Where the readers come while a text is read. A loop begins at the front of a text that is read, or it is entered in
a turn of another loop; from there it goes on turn by turn. `Visits` collects these places. All of them lie between
two characters of their text, and that text stands in the whole one (`within_of_visits`): a loop begins at such a
place, and a turn moves past whole characters. So no cut of a text can fail, every loop comes to its end, and so does
the reading of a tree, where each group that is read is shorter than the text around it (`readers_advance`).
-/
import Mathlib.Algebra.Group.Nat.Defs
import TermTree.Proofs.Scanning.Loop
import TermTree.Proofs.Tree.Reached
import TermTree.Proofs.Tree.Told

namespace TermTree.Scanning
open TermTree.Token TermTree.Term

/-! ## The places of a cursor -/

namespace Cursor

/-- What is still to be read stands at the place of the cursor; the text that is read stands at its base in the whole
text `t`. -/
structure Within (t : Text) (c : Cursor) : Prop where
  restAt : Text.RestAt c.base c.text c.pos c.rest
  text : ∃ after, Text.RestAt 0 t c.base (c.text ++ after)

/-- The text can be cut at the cursor: its place is not behind the end and between two characters of the UTF-8, and
what is still to be read is the part from there on. -/
structure Cuts (c : Cursor) : Prop where
  base_le : c.base ≤ c.pos
  pos_le : c.pos - c.base ≤ Text.byteSize c.text
  isValid : String.Pos.Raw.IsValid (String.ofList c.text) ⟨c.pos - c.base⟩
  drop_bytes : (Text.bytes c.text).drop (c.pos - c.base) = Text.bytes c.rest

variable {t taken taken' : Text} {c c' c'' : Cursor}

theorem Moves.refl (c : Cursor) : c.Moves [] c := ⟨rfl, rfl, rfl, rfl⟩

theorem Moves.trans (h : c.Moves taken c') (h' : c'.Moves taken' c'') : c.Moves (taken ++ taken') c'' where
  base_eq := h'.base_eq.trans h.base_eq
  text_eq := h'.text_eq.trans h.text_eq
  rest_eq := by rw [h.rest_eq, h'.rest_eq, List.append_assoc]
  pos_eq := by rw [h'.pos_eq, h.pos_eq, Text.byteSize_append, Nat.add_assoc]

theorem within_atStart {pos : Nat} {u after : Text} (h : Text.RestAt 0 t pos (u ++ after)) :
    (atStart pos u).Within t :=
  ⟨.start pos u, after, h⟩

namespace Within

theorem moves (h : c.Within t) (hmoves : c.Moves taken c') : c'.Within t := by
  obtain ⟨hrest, htext⟩ := h
  rw [hmoves.rest_eq] at hrest
  refine ⟨?_, ?_⟩
  · rw [hmoves.base_eq, hmoves.text_eq, hmoves.pos_eq]
    exact hrest.trans (.behind c.pos taken c'.rest)
  · rw [hmoves.base_eq, hmoves.text_eq]
    exact htext

theorem advance {rest : Text} (h : c.Within t) (hrest : c.rest = taken ++ rest) : (c.advance taken rest).Within t :=
  h.moves (moves_advance hrest)

theorem cuts (h : c.Within t) : c.Cuts where
  base_le := h.restAt.start_le
  pos_le := by
    have hle := (h.restAt.sub_start.append []).add_byteSize_le
    rw [List.append_nil] at hle
    omega
  isValid := h.restAt.sub_start.isValid
  drop_bytes := h.restAt.sub_start.drop_bytes

theorem pos_le (h : c.Within t) : c.pos ≤ Text.byteSize t := by
  obtain ⟨after, htext⟩ := h.text
  have hbase := htext.add_byteSize_le
  have hpos := h.cuts.pos_le
  have hle := h.cuts.base_le
  omega

/-- What lies between two places of one text is the part that was read on the way. -/
theorem extract_bytes (h : c.Within t) (hmoves : c.Moves taken c') :
    (Text.bytes c.text).extract (c.pos - c.base) (c'.pos - c.base) = Text.bytes taken := by
  have hrest := h.restAt.sub_start
  have hle := h.restAt.start_le
  have hpos : c'.pos - c.base = c.pos - c.base + Text.byteSize taken := by
    rw [hmoves.pos_eq]
    omega
  rw [hmoves.rest_eq] at hrest
  rw [hpos, hrest.extract_bytes]

end Within

end Cursor

/-! ## Where loops begin -/

/-- The loop that reads a name or a value at the cursor: one that looks for the end of a verbatim span if a span opens
there, and else the loop `bare`. -/
inductive ReadsContent (g : Grammar) (bare : Loop) (c : Cursor) : Loop → Cursor → Prop where
  | span {inside : Text} : Text.after? g.quoteOpen c.rest = some inside →
      ReadsContent g bare c (.span c.pos) (c.advance g.quoteOpen inside)
  | bare : Text.after? g.quoteOpen c.rest = none → ReadsContent g bare c bare c

/-- In its turn at `c` the loop `l` enters the loop `l'` at `c'`. -/
inductive Enters (g : Grammar) (h : g.Valid) : Loop → Cursor → Loop → Cursor → Prop where
  | group {c : Cursor} {inside : Text} : Text.after? g.bracketOpen c.rest = some inside →
      Enters g h .tokens c (.group c.pos 1) (c.advance g.bracketOpen inside)
  | leaf {c : Cursor} : c.rest ≠ [] → Text.after? g.bracketOpen c.rest = none → Enters g h .tokens c .leaf c
  | separators {c : Cursor} {token : Token} {rest : Text} : c.rest ≠ [] →
      readToken g h c.pos c.rest = .ok (token, rest) →
      Enters g h .tokens c (.run isSeparator) (c.advance (token.piece g) rest)
  | spanInGroup {c : Cursor} {opened : Nat} {depth : Int} {inside : Text} :
      Text.after? g.bracketClose c.rest = none → Text.after? g.bracketOpen c.rest = none →
      Text.after? g.quoteOpen c.rest = some inside →
      Enters g h (.group opened depth) c (.span c.pos) (c.advance g.quoteOpen inside)
  | spanInLeaf {c : Cursor} {inside : Text} : Text.after? g.quoteOpen c.rest = some inside →
      Enters g h .leaf c (.span c.pos) (c.advance g.quoteOpen inside)
  | value {c c' : Cursor} {l : Loop} {d : Text} : c.rest ≠ [] → g.leadingDelimiter? c.rest = some d →
      ReadsContent g .value (c.advance d (c.rest.drop d.length)) l c' → Enters g h .parameters c l c'

/-- While the text `t` is read, the text `u` is read at `pos` as a term: it is `t` itself, or a token of a text that
is read. -/
inductive ReadsTerm (g : Grammar) (h : g.Valid) (t : Text) : Nat → Text → Prop where
  | whole : ReadsTerm g h t 0 t
  | leaf {pos : Nat} {u : Text} {tokens : List Token} {token : Token} : Tree.Reached g t pos u →
      tokensAt g h pos u = .ok tokens → token ∈ tokens → token.kind = .leaf →
      ReadsTerm g h t token.start token.text

/-- While the text `t` is read, as tokens, as a term or as a tree, the loop `l` comes to `c`. -/
inductive Visits (g : Grammar) (h : g.Valid) (t : Text) : Loop → Cursor → Prop where
  | tokens {pos : Nat} {u : Text} : Tree.Reached g t pos u →
      Visits g h t .tokens (.atStart (pos + Text.byteSize (Text.leadingBlanks u)) (Text.trim u))
  | name {pos : Nat} {u : Text} {l : Loop} {c : Cursor} : ReadsTerm g h t pos u →
      ReadsContent g (.run isPlainChar) (.atStart pos u) l c → Visits g h t l c
  | parameters {pos : Nat} {u : Text} {name : Reading} : ReadsTerm g h t pos u → readName g pos u = .ok name →
      Visits g h t .parameters ((Cursor.atStart pos u).advance name.written name.rest)
  | goOn {l l' : Loop} {c c' : Cursor} : Visits g h t l c → turn g h l c = .goOn l' c' → Visits g h t l' c'
  | enter {l l' : Loop} {c c' : Cursor} : Visits g h t l c → Enters g h l c l' c' → Visits g h t l' c'

/-- The cursors that there are while `t` is read: those of the loops, and those in front of a name or a value. -/
inductive Holds (g : Grammar) (h : g.Valid) (t : Text) : Cursor → Prop where
  | loop {l : Loop} {c : Cursor} : Visits g h t l c → Holds g h t c
  | name {pos : Nat} {u : Text} : ReadsTerm g h t pos u → Holds g h t (.atStart pos u)
  | value {c : Cursor} {d : Text} : Visits g h t .parameters c → g.leadingDelimiter? c.rest = some d →
      Holds g h t (c.advance d (c.rest.drop d.length))

/-! ## Every place lies in the text -/

section
variable {g : Grammar} {h : g.Valid} {t : Text} {l l' : Loop} {c c' : Cursor}

theorem ReadsContent.moves {bare : Loop} (hreads : ReadsContent g bare c l c') : ∃ taken, c.Moves taken c' := by
  cases hreads with
  | span hopen => exact ⟨_, Cursor.moves_of_after? hopen⟩
  | bare => exact ⟨[], .refl c⟩

theorem ReadsContent.isOpen {bare : Loop} (hreads : ReadsContent g bare c l c') (hbare : bare.Open) : l.Open := by
  cases hreads with
  | span => trivial
  | bare => exact hbare

theorem moves_of_leadingDelimiter? {d : Text} (hd : g.leadingDelimiter? c.rest = some d) :
    c.Moves d (c.advance d (c.rest.drop d.length)) :=
  Cursor.moves_advance (Grammar.eq_append_of_leadingDelimiter? hd)

theorem Enters.moves (henters : Enters g h l c l' c') : ∃ taken, c.Moves taken c' := by
  cases henters with
  | group hopen => exact ⟨_, Cursor.moves_of_after? hopen⟩
  | leaf => exact ⟨[], .refl c⟩
  | separators _ hread => exact ⟨_, Cursor.moves_advance (eq_append_of_readToken hread)⟩
  | spanInGroup _ _ hquote => exact ⟨_, Cursor.moves_of_after? hquote⟩
  | spanInLeaf hquote => exact ⟨_, Cursor.moves_of_after? hquote⟩
  | value _ hd hreads =>
    obtain ⟨taken, hmoves⟩ := hreads.moves
    exact ⟨_, (moves_of_leadingDelimiter? hd).trans hmoves⟩

theorem Enters.isOpen (henters : Enters g h l c l' c') : l'.Open := by
  cases henters with
  | group => exact Int.one_pos
  | value _ _ hreads => exact hreads.isOpen trivial
  | _ => trivial

theorem ReadsTerm.within {pos : Nat} {u : Text} (hterm : ReadsTerm g h t pos u) :
    (Cursor.atStart pos u).Within t := by
  cases hterm with
  | whole =>
    have hstart : Text.RestAt 0 t 0 (t ++ []) := by
      rw [List.append_nil]
      exact .start 0 t
    exact Cursor.within_atStart hstart
  | leaf hu htokens hm =>
    obtain ⟨_, hrun⟩ := exists_runs_of_ok htokens
    obtain ⟨after, hstart⟩ := (hu.standsIn hrun _ hm).start
    exact Cursor.within_atStart hstart

theorem within_of_reached {pos : Nat} {u : Text} (hu : Tree.Reached g t pos u) :
    (Cursor.atStart (pos + Text.byteSize (Text.leadingBlanks u)) (Text.trim u)).Within t := by
  obtain ⟨after, hafter⟩ := hu.restAt
  have htrim := hafter.within (Text.restAt_trim pos u)
  rw [List.append_assoc] at htrim
  exact Cursor.within_atStart htrim

/-- **Every place that is come to lies in the text, and no bracket is closed that is not open.** -/
theorem within_of_visits (hvisits : Visits g h t l c) : l.Open ∧ c.Within t := by
  induction hvisits with
  | tokens hu => exact ⟨trivial, within_of_reached hu⟩
  | name hterm hreads =>
    obtain ⟨_, hmoves⟩ := hreads.moves
    exact ⟨hreads.isOpen trivial, hterm.within.moves hmoves⟩
  | parameters hterm hname =>
    have hwhole := eq_append_of_readContent (fun _ => List.takeWhile_append_dropWhile) hname
    exact ⟨trivial, hterm.within.advance hwhole⟩
  | goOn _ hturn ih =>
    -- the two are kept together: a turn of the loop for groups is only right where a bracket is open
    obtain ⟨⟨_, _, hmoves⟩, hopen, -⟩ := advances_of_turn ih.1 hturn
    exact ⟨hopen, ih.2.moves hmoves⟩
  | enter _ henters ih =>
    obtain ⟨_, hmoves⟩ := henters.moves
    exact ⟨henters.isOpen, ih.2.moves hmoves⟩

theorem Holds.within (hc : Holds g h t c) : c.Within t := by
  cases hc with
  | loop hvisits => exact (within_of_visits hvisits).2
  | name hterm => exact hterm.within
  | value hvisits hd => exact (within_of_visits hvisits).2.moves (moves_of_leadingDelimiter? hd)

/-! ## Turn after turn -/

/-- The loop `l` at `c` comes to be the loop `l'` at `c'` after some of its turns. -/
inductive Turns (g : Grammar) (h : g.Valid) (l : Loop) (c : Cursor) : Loop → Cursor → Prop where
  | stay : Turns g h l c l c
  | goOn {l' l'' : Loop} {c' c'' : Cursor} : Turns g h l c l' c' → turn g h l' c' = .goOn l'' c'' →
      Turns g h l c l'' c''

theorem Turns.moves (hopen : l.Open) (hturns : Turns g h l c l' c') : l'.Open ∧ ∃ taken, c.Moves taken c' := by
  induction hturns with
  | stay => exact ⟨hopen, [], .refl c⟩
  | goOn _ hturn ih =>
    obtain ⟨hopen', _, hmoves⟩ := ih
    obtain ⟨⟨_, _, hmoves'⟩, hopen'', -⟩ := advances_of_turn hopen' hturn
    exact ⟨hopen'', _, hmoves.trans hmoves'⟩

/-! ## What a loop makes of a loop that it enters -/

/-- A turn hands on the fault of the loop that it enters, and else goes on with what that has left or with less. -/
inductive Turn.Follows : Turn → Except Malformed Text → Prop where
  | fault (e : Malformed) : Turn.Follows (.leave (.error e)) (.error e)
  | goOn {l : Loop} {c : Cursor} {rest : Text} : c.rest <:+ rest → Turn.Follows (.goOn l c) (.ok rest)

/-- A span that opens is closed, or it is not: the loop that looks for its end finds the same. -/
theorem outcome_span {inside : Text} (hopen : Text.after? g.quoteOpen c.rest = some inside) :
    (g.quotedAt c.rest = .unclosed ∧
      outcome g h (.span c.pos) (c.advance g.quoteOpen inside) = .error (.unterminatedQuote c.pos)) ∨
    ∃ body rest, g.quotedAt c.rest = .span body rest ∧
      outcome g h (.span c.pos) (c.advance g.quoteOpen inside) = .ok rest := by
  simp only [Grammar.quotedAt, hopen, outcome, Cursor.advance]
  cases Text.breakOn? g.quoteClose inside with
  | none => exact .inl ⟨rfl, rfl⟩
  | some cut => exact .inr ⟨cut.1, cut.2, rfl, rfl⟩

theorem quotedAt_eq_absent_of_after? {u : Text} (hopen : Text.after? g.quoteOpen u = none) :
    g.quotedAt u = .absent := by
  simp only [Grammar.quotedAt, hopen]

theorem ReadsContent.outcome_eq {bare : Loop} (split : Text → Text × Text)
    (hbare : outcome g h bare c = .ok (split c.rest).2) (hreads : ReadsContent g bare c l c') :
    outcome g h l c' = (readContent g split c.pos c.rest).map (·.rest) := by
  cases hreads with
  | span hopen =>
    rcases outcome_span (h := h) hopen with ⟨hquote, hout⟩ | ⟨body, rest, hquote, hout⟩
    · rw [hout, readContent, hquote, Outcome.map_error]
    · rw [hout, readContent, hquote, Outcome.map_ok]
  | bare hopen => rw [hbare, readContent, quotedAt_eq_absent_of_after? hopen, Outcome.map_ok]

theorem rest_ne_of_after? {marker rest : Text} (hne : marker ≠ []) (hmarker : Text.after? marker c.rest = some rest) :
    c.rest ≠ [] := by
  rw [Text.eq_append_of_after? hmarker]
  exact List.append_ne_nil_of_left_ne_nil hne rest

/-- A token is read by the loop for its kind, and then the separators behind it are passed over. -/
theorem follows_tokens (hne : c.rest ≠ []) {r : Except Malformed Text}
    (hr : (readToken g h c.pos c.rest).map (·.2) = r) : (turn g h .tokens c).Follows r := by
  obtain ⟨x, u, hrest⟩ := List.exists_cons_of_ne_nil hne
  rw [hrest] at hr
  simp only [turn, hrest, tokensTurn]
  subst hr
  cases readToken g h c.pos (x :: u) with
  | error e => exact .fault e
  | ok first => exact .goOn (List.dropWhile_suffix _)

theorem follows_span {inside : Text} {next : Turn} (hopen : Text.after? g.quoteOpen c.rest = some inside)
    (hunclosed : g.quotedAt c.rest = .unclosed → next = .leave (.error (.unterminatedQuote c.pos)))
    (hclosed : ∀ body rest, g.quotedAt c.rest = .span body rest → next = .goOn l (c.advance (g.quote body) rest)) :
    next.Follows (outcome g h (.span c.pos) (c.advance g.quoteOpen inside)) := by
  rcases outcome_span (h := h) hopen with ⟨hquote, hout⟩ | ⟨body, rest, hquote, hout⟩
  · rw [hout, hunclosed hquote]
    exact .fault _
  · rw [hout, hclosed body rest hquote]
    exact .goOn List.suffix_rfl

/-- **A loop makes of a loop that it enters what that comes to.** -/
theorem Enters.follows (henters : Enters g h l c l' c') : (turn g h l c).Follows (outcome g h l' c') := by
  cases henters with
  | group hbracket =>
    refine follows_tokens (rest_ne_of_after? h.bracketOpen_ne hbracket) ?_
    have hdepth : ((1 : Int) - 1).toNat = 0 := rfl
    simp only [readToken, hbracket, Outcome.map_map, outcome, hdepth, Cursor.advance]
  | leaf hne hbracket =>
    refine follows_tokens hne ?_
    simp only [readToken, hbracket, Outcome.map_map, outcome]
  | separators hne hread =>
    obtain ⟨x, u, hrest⟩ := List.exists_cons_of_ne_nil hne
    rw [hrest] at hread
    simp only [turn, hrest, tokensTurn, hread, outcome]
    exact .goOn List.suffix_rfl
  | @spanInGroup _ opened depth inside hclose hopen hquote =>
    obtain ⟨x, u, hrest⟩ := List.exists_cons_of_ne_nil (rest_ne_of_after? h.quoteOpen_ne hquote)
    rw [hrest] at hclose hopen
    refine follows_span (l := .group opened depth) hquote (fun hspan => ?_) fun body rest hspan => ?_
    all_goals
      rw [hrest] at hspan
      simp only [turn, hrest, groupTurn, hclose, hopen, hspan]
  | spanInLeaf hquote =>
    obtain ⟨x, u, hrest⟩ := List.exists_cons_of_ne_nil (rest_ne_of_after? h.quoteOpen_ne hquote)
    refine follows_span (l := .leaf) hquote (fun hspan => ?_) fun body rest hspan => ?_
    all_goals
      rw [hrest] at hspan
      simp only [turn, hrest, leafTurn, hspan]
  | @value _ _ _ d hne hd hreads =>
    obtain ⟨x, u, hrest⟩ := List.exists_cons_of_ne_nil hne
    rw [hreads.outcome_eq (bareValue g) rfl]
    rw [hrest] at hd ⊢
    simp only [turn, hrest, parametersTurn, hd, readValue, Cursor.advance]
    cases readContent g (bareValue g) (c.pos + Text.byteSize d) ((x :: u).drop d.length) with
    | error e => exact .fault e
    | ok value => exact .goOn List.suffix_rfl

end

/-! ## The readers -/

theorem error_of_not_valid {g : Grammar} (hinvalid : ¬ g.Valid) (t : Text) :
    ∃ fault, g.fault? = some fault ∧
      Token.ofText g t = .error (.invalidGrammar fault) ∧ Term.read g t = .error (.invalidGrammar fault) ∧
      Tree.read g t = .error (.invalidGrammar fault) ∧ Tree.readLeaf g t = .error (.invalidGrammar fault) := by
  obtain ⟨fault, hfault⟩ := Option.ne_none_iff_exists'.1 fun hnone => hinvalid (Grammar.fault?_eq_none_iff.1 hnone)
  have hterm : Term.read g t = .error (.invalidGrammar fault) := Grammar.reading_eq_throw hfault _
  refine ⟨fault, hfault, Grammar.reading_eq_throw hfault _, hterm,
    Grammar.reading_eq_throw hfault _, ?_⟩
  rw [Tree.readLeaf, hterm, Outcome.map_error]

/-- The inside of a group is read as a text of its own, and has fewer bytes than the text around the group. -/
theorem byteSize_lt_of_mem_tokensAt {g : Grammar} {h : g.Valid} {t u : Text} {pos : Nat} {tokens : List Token}
    {token : Token} (hu : Tree.Reached g t pos u) (htokens : tokensAt g h pos u = .ok tokens) (hm : token ∈ tokens)
    (hkind : token.kind = .group) :
    Tree.Reached g t token.start token.text ∧ Text.byteSize token.text < Text.byteSize u := by
  obtain ⟨_, hrun⟩ := exists_runs_of_ok htokens
  refine ⟨hu.inside hrun hm hkind, ?_⟩
  have hlt := length_lt_of_mem_tokensAt htokens hm hkind
  obtain ⟨after, hstart⟩ := ((hrun.standsIn token hm).within (Text.restAt_trim pos u)).start
  exact hstart.byteSize_lt hlt

/-- **The readers move on, and stop only between characters.** With a usable grammar, each cursor that there is while
the text is read stands where its text can be cut, and 32 bits hold that place. Wherever a loop has come to, a bracket
is open if it looks for the end of a group; it comes to its end with what the reader gives; it goes on only from a place
further on; what it makes of a loop that it enters is what that comes to; and what lies between two of its places is a
part of the text. A tree is read from the tokens of its text, and the inside of a group, which is read in the same way,
has fewer bytes; and of all this the places are told as they are. With a grammar that is not usable nothing is read. -/
theorem readers_advance {g : Grammar} {t : Text} (hsize : Text.byteSize t < 2 ^ 32) :
    (∀ h : g.Valid,
      (∀ c, Holds g h t c → c.Cuts ∧ c.pos < 2 ^ 32) ∧
      (∀ l c, Visits g h t l c →
        l.Open ∧ Ends g h l c (outcome g h l c) ∧
        (∀ l' c', turn g h l c = .goOn l' c' → c.pos < c'.pos) ∧
        (∀ l' c', Enters g h l c l' c' → (turn g h l c).Follows (outcome g h l' c')) ∧
        ∀ l' c', Turns g h l c l' c' → ∃ taken, c.rest = taken ++ c'.rest ∧
          (Text.bytes c.text).extract (c.pos - c.base) (c'.pos - c.base) = Text.bytes taken) ∧
      (∀ pos u tokens, Tree.Reached g t pos u → tokensAt g h pos u = .ok tokens →
        Tree.readAt g h pos u = (tokens.mapM (Tree.ofToken g h)).map (Tree.group g) ∧
        ∀ token ∈ tokens, token.kind = .group →
          Tree.ofToken g h token = Tree.readAt g h token.start token.text ∧
          Tree.Reached g t token.start token.text ∧ Text.byteSize token.text < Text.byteSize u) ∧
      Token.ofText g t = (tokensAt g h 0 t).mapError .malformed ∧
      Term.read g t = (Term.readAt g h 0 t).mapError .malformed ∧
      Tree.read g t = (Tree.readAt g h 0 t).mapError .malformed) ∧
    (¬ g.Valid → ∃ fault, g.fault? = some fault ∧
      Token.ofText g t = .error (.invalidGrammar fault) ∧ Term.read g t = .error (.invalidGrammar fault) ∧
      Tree.read g t = .error (.invalidGrammar fault) ∧ Tree.readLeaf g t = .error (.invalidGrammar fault)) := by
  refine ⟨fun h => ⟨fun c hc => ?_, fun l c hvisits => ?_, fun pos u tokens hu htokens => ?_,
    Token.ofText_eq h hsize, Term.read_eq h hsize, Tree.read_eq h hsize⟩, fun hinvalid => error_of_not_valid hinvalid t⟩
  · exact ⟨hc.within.cuts, Nat.lt_of_le_of_lt hc.within.pos_le hsize⟩
  · obtain ⟨hopen, hwithin⟩ := within_of_visits hvisits
    refine ⟨hopen, ends_outcome hopen, fun l' c' hturn => ?_, fun l' c' henters => henters.follows,
      fun l' c' hturns => ?_⟩
    · exact (advances_of_turn hopen hturn).1.pos_lt
    · obtain ⟨-, taken, hmoves⟩ := hturns.moves hopen
      exact ⟨taken, hmoves.rest_eq, hwithin.extract_bytes hmoves⟩
  · refine ⟨?_, fun token hm hkind => ?_⟩
    · rw [Tree.readAt_eq, htokens]
      rfl
    · obtain ⟨hinside, hlt⟩ := byteSize_lt_of_mem_tokensAt hu htokens hm hkind
      refine ⟨?_, hinside, hlt⟩
      rw [Tree.ofToken, hkind]

/-- In a span within a group, behind a character of two bytes and in front of another; and a grammar that has no
delimiter. -/
theorem readers_advance_in_span :
    Text.byteSize ['\x7b', 'é', '\x60', 'ü', '\x60', '\x7d'] < 2 ^ 32 ∧
    Visits {} Grammar.valid_default ['\x7b', 'é', '\x60', 'ü', '\x60', '\x7d'] (.span 3)
      ⟨0, ['\x7b', 'é', '\x60', 'ü', '\x60', '\x7d'], 4, ['ü', '\x60', '\x7d']⟩ ∧
    turn {} Grammar.valid_default (.span 3)
      ⟨0, ['\x7b', 'é', '\x60', 'ü', '\x60', '\x7d'], 4, ['ü', '\x60', '\x7d']⟩ =
        .goOn (.span 3) ⟨0, ['\x7b', 'é', '\x60', 'ü', '\x60', '\x7d'], 6, ['\x60', '\x7d']⟩ ∧
    String.Pos.Raw.IsValid (String.ofList ['\x7b', 'é', '\x60', 'ü', '\x60', '\x7d']) ⟨4⟩ ∧ 4 < 6 ∧
    ¬ Grammar.Valid { delimiters := [] } ∧
    Tree.read { delimiters := [] } ['\x7b', 'é', '\x60', 'ü', '\x60', '\x7d'] =
      .error (.invalidGrammar .noDelimiters) := by
  have hsize : Text.byteSize ['\x7b', 'é', '\x60', 'ü', '\x60', '\x7d'] < 2 ^ 32 := by decide
  have hstart : Visits {} Grammar.valid_default ['\x7b', 'é', '\x60', 'ü', '\x60', '\x7d'] .tokens
      (.atStart 0 ['\x7b', 'é', '\x60', 'ü', '\x60', '\x7d']) := .tokens .whole
  have hgroup : Visits {} Grammar.valid_default ['\x7b', 'é', '\x60', 'ü', '\x60', '\x7d'] (.group 0 1)
      ⟨0, ['\x7b', 'é', '\x60', 'ü', '\x60', '\x7d'], 3, ['\x60', 'ü', '\x60', '\x7d']⟩ :=
    (hstart.enter (.group rfl)).goOn rfl
  have hspan := hgroup.enter (.spanInGroup rfl rfl rfl)
  have hinvalid : ¬ Grammar.Valid { delimiters := [] } := by decide
  have hturn : turn {} Grammar.valid_default (.span 3)
      ⟨0, ['\x7b', 'é', '\x60', 'ü', '\x60', '\x7d'], 4, ['ü', '\x60', '\x7d']⟩ =
        .goOn (.span 3) ⟨0, ['\x7b', 'é', '\x60', 'ü', '\x60', '\x7d'], 6, ['\x60', '\x7d']⟩ := rfl
  obtain ⟨hvalid, -⟩ := readers_advance (g := {}) hsize
  obtain ⟨hholds, hvisits, -⟩ := hvalid Grammar.valid_default
  obtain ⟨-, hrefused⟩ := readers_advance (g := { delimiters := [] }) hsize
  obtain ⟨fault, hfault, -, -, hread, -⟩ := hrefused hinvalid
  cases hfault
  exact ⟨hsize, hspan, hturn, (hholds _ (.loop hspan)).1.isValid, (hvisits _ _ hspan).2.2.1 _ _ hturn, hinvalid, hread⟩

end TermTree.Scanning
