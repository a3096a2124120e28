import KustoFacts.Proofs.Query.ParsedGrown
import KustoFacts.Proofs.Query.ToEnd

/-!
    What is accepted is read. In a text without faults every token belongs to one statement or is a
    semicolon between two: nothing is passed over in silence. The tokens are cut into segments, one
    for each round of reading statements, and the places of the statements are those of the segments
    (`Segmented`). -/

namespace KustoFacts

/-- A token that stands within a range. -/
def Span.Holds (range : Span) (t : Token) : Prop :=
  range.start ≤ t.pos.offset ∧ t.stop ≤ range.stop

instance (range : Span) (t : Token) : Decidable (range.Holds t) :=
  inferInstanceAs (Decidable (_ ∧ _))

/-- A token that stands between two ranges. -/
def Token.Between (t : Token) (left right : Span) : Prop :=
  left.stop ≤ t.pos.offset ∧ t.stop ≤ right.start

/-! ### Segments -/

/-- Tokens that are the segments of given ranges, and semicolons between them. -/
inductive Segmented : List Token → List Span → Prop where
  | nil : Segmented [] []
  | semicolon {t : Token} {ts : List Token} {ranges : List Span} (h : t.kind = .semicolon)
      (more : Segmented ts ranges) : Segmented (t :: ts) ranges
  | segment {first : Token} {own rest : List Token} {range : Span} {ranges : List Span}
      (begins : first.kind ≠ .semicolon) (starts : range.start = first.pos.offset)
      (holds : ∀ t ∈ first :: own, range.Holds t) (before : ∀ t ∈ rest, range.stop ≤ t.pos.offset)
      (next : ∀ t ∈ rest.head?, t.kind = .semicolon) (more : Segmented rest ranges) :
      Segmented (first :: own ++ rest) (range :: ranges)

/-- Tokens one after another, none of them empty. -/
structure Apart (ts : List Token) : Prop where
  ordered : ts.Pairwise fun t u => t.stop ≤ u.pos.offset
  solid : ∀ t ∈ ts, t.pos.offset < t.stop

theorem Apart.right {ts us : List Token} (h : Apart (ts ++ us)) : Apart us :=
  ⟨(List.pairwise_append.1 h.ordered).2.1, fun t ht => h.solid t (List.mem_append_right ts ht)⟩

theorem Apart.tail {t : Token} {ts : List Token} (h : Apart (t :: ts)) : Apart ts :=
  ⟨(List.pairwise_cons.1 h.ordered).2, fun u hu => h.solid u (List.mem_cons_of_mem t hu)⟩

namespace Segmented

variable {ts : List Token} {ranges : List Span}

/-- What stands before all tokens stands before all ranges. -/
theorem le_start (h : Segmented ts ranges) {offset : Nat} (hts : ∀ t ∈ ts, offset ≤ t.pos.offset) :
    ∀ range ∈ ranges, offset ≤ range.start := by
  induction h with
  | nil => nofun
  | semicolon _ _ ih => exact ih fun t ht => hts t (List.mem_cons_of_mem _ ht)
  | @segment first own rest range ranges _ starts _ _ _ _ ih =>
    intro r hr
    rcases List.mem_cons.1 hr with rfl | hr
    · rw [starts]
      exact hts first (by simp)
    · exact ih (fun t ht => hts t (List.mem_append_right _ ht)) r hr

/-- No range is empty. -/
theorem solid (h : Segmented ts ranges) (hts : Apart ts) :
    ∀ range ∈ ranges, range.start < range.stop := by
  induction h with
  | nil => nofun
  | semicolon _ _ ih => exact ih hts.tail
  | @segment first own rest range ranges _ starts holds _ _ _ ih =>
    intro r hr
    rcases List.mem_cons.1 hr with rfl | hr
    · have hfirst := hts.solid first (by simp)
      have hstop := (holds first List.mem_cons_self).2
      omega
    · exact ih hts.right r hr

/-- Every token but a semicolon stands within one of the ranges. -/
theorem count (h : Segmented ts ranges) (hts : Apart ts) :
    ∀ t ∈ ts, t.kind ≠ .semicolon → ranges.countP (fun range => decide (range.Holds t)) = 1 := by
  induction h with
  | nil => nofun
  | @semicolon u ts ranges hu more ih =>
    intro t ht hkind
    rcases List.mem_cons.1 ht with rfl | ht
    · exact absurd hu hkind
    · exact ih hts.tail t ht hkind
  | @segment first own rest range ranges _ starts holds before _ more ih =>
    intro t ht hkind
    have hsolid := hts.solid t ht
    rcases List.mem_append.1 ht with hown | hrest
    · -- all other ranges begin after the token
      have hafter : ∀ u ∈ rest, t.stop ≤ u.pos.offset := fun u hu =>
        (List.pairwise_append.1 hts.ordered).2.2 t hown u hu
      have hnone : ranges.countP (fun range => decide (range.Holds t)) = 0 := by
        refine List.countP_eq_zero.2 fun r hr => ?_
        have hstart := more.le_start hafter r hr
        have hout : ¬r.Holds t := fun hholds => by
          have hstart' := hholds.1
          omega
        simpa using hout
      rw [List.countP_cons_of_pos (by simpa using holds t hown), hnone]
    · -- the range has ended before the token
      have hout : ¬range.Holds t := fun hholds => by
        have hbefore := before t hrest
        have hstop := hholds.2
        omega
      rw [List.countP_cons_of_neg (by simpa using hout)]
      exact ih hts.right t hrest hkind

/-- Before the first range there are semicolons only. -/
theorem lead {range : Span} (h : Segmented ts ranges) (hts : Apart ts)
    (hfirst : ranges.head? = some range) :
    ∀ t ∈ ts, t.stop ≤ range.start → t.kind = .semicolon := by
  induction h with
  | nil => nofun
  | @semicolon u ts ranges hu more ih =>
    intro t ht hstop
    rcases List.mem_cons.1 ht with rfl | ht
    · exact hu
    · exact ih hts.tail hfirst t ht hstop
  | @segment first own rest r ranges _ starts holds before _ more ih =>
    cases hfirst
    intro t ht hstop
    have hsolid := hts.solid t ht
    rcases List.mem_append.1 ht with hown | hrest
    · have hstart := (holds t hown).1
      omega
    · have hstart := hts.solid first (by simp)
      have hfirst := (holds first List.mem_cons_self).2
      have hbefore := before t hrest
      omega

/-- A semicolon before a range that is the first. -/
theorem exists_lead {range : Span} (h : Segmented ts ranges) (hts : Apart ts)
    (hfirst : ranges.head? = some range) (hsemi : ∀ t ∈ ts.head?, t.kind = .semicolon) :
    ∃ t ∈ ts, t.stop ≤ range.start := by
  cases h with
  | nil => cases hfirst
  | @semicolon t ts _ ht more =>
    refine ⟨t, List.mem_cons_self, ?_⟩
    have hafter : ∀ u ∈ ts, t.stop ≤ u.pos.offset := (List.pairwise_cons.1 hts.ordered).1
    exact more.le_start hafter range (List.mem_of_mem_head? hfirst)
  | @segment first own rest r ranges begins =>
    exact absurd (hsemi first (by simp)) begins

/-- Between two ranges next to each other there are semicolons, and nothing else. -/
theorem between (h : Segmented ts ranges) (hts : Apart ts) {left right : Span}
    (hnext : [left, right] <:+: ranges) :
    (∃ t ∈ ts, t.Between left right) ∧ ∀ t ∈ ts, t.Between left right → t.kind = .semicolon := by
  induction h with
  | nil => simp at hnext
  | @semicolon u ts ranges hu more ih =>
    obtain ⟨⟨t, ht, hbetween⟩, hall⟩ := ih hts.tail hnext
    refine ⟨⟨t, List.mem_cons_of_mem _ ht, hbetween⟩, fun t ht => ?_⟩
    rcases List.mem_cons.1 ht with rfl | ht
    · exact fun _ => hu
    · exact hall t ht
  | @segment first own rest range ranges _ starts holds before next more ih =>
    have hrest := hts.right
    rcases List.infix_cons_iff.1 hnext with hprefix | hinfix
    · -- the segment and the first of those after it
      obtain ⟨rfl, hsecond⟩ := List.cons_prefix_cons.1 hprefix
      have hfirst : ranges.head? = some right := by
        obtain ⟨more, rfl⟩ := hsecond
        rfl
      obtain ⟨t, ht, hstop⟩ := more.exists_lead hrest hfirst next
      refine ⟨⟨t, List.mem_append_right _ ht, before t ht, hstop⟩, fun t ht hbetween => ?_⟩
      rcases List.mem_append.1 ht with hown | ht
      · have hsolid := hts.solid t (List.mem_append_left _ hown)
        have hstop := (holds t hown).2
        have hleft := hbetween.1
        omega
      · exact more.lead hrest hfirst t ht hbetween.2
    · obtain ⟨⟨t, ht, hbetween⟩, hall⟩ := ih hrest hinfix
      refine ⟨⟨t, List.mem_append_right _ ht, hbetween⟩, fun t ht hbetween => ?_⟩
      rcases List.mem_append.1 ht with hown | ht
      · -- the token stands before both ranges
        have hleft : left ∈ ranges := hinfix.subset List.mem_cons_self
        have hafter : ∀ u ∈ rest, t.stop ≤ u.pos.offset := fun u hu =>
          (List.pairwise_append.1 hts.ordered).2.2 t hown u hu
        have hstart := more.le_start hafter left hleft
        have hsolid := more.solid hrest left hleft
        have hsolid' := hts.solid t (List.mem_append_left _ hown)
        have hbetween := hbetween.1
        omega
      · exact hall t ht hbetween

end Segmented

/-! ### The statements of a text -/

namespace Parser

open KustoFacts.Frame

variable {text : Bytes} {read : Tokens} {g : Grammar} {s t : ParserState}

/-- What moves consume ends before what has been consumed then. -/
theorem consumed_of_moves (hs : s.Along text read) (hmoves : s.Moves t) :
    ∃ own, s.tokens = own ++ t.tokens ∧ ∀ u ∈ own, u.stop ≤ t.prevEnd := by
  induction hmoves with
  | refl => exact ⟨[], rfl, nofun⟩
  | @advance t hmoves ih =>
    obtain ⟨own, htokens, hown⟩ := ih
    obtain ⟨ht, -⟩ := hs.moves hmoves
    have hbefore := ht.before_advance.prevEnd
    refine ⟨own ++ t.tokens.take 1, ?_, fun u hu => ?_⟩
    · rw [htokens, ParserState.advance, List.append_assoc, ← List.drop_one, List.take_append_drop]
    rcases List.mem_append.1 hu with hu | hu
    · exact Nat.le_trans (hown u hu) hbefore
    · have hcurrent : u = t.current := by
        rcases hts : t.tokens with _ | ⟨v, vs⟩ <;> rw [hts] at hu
        · cases hu
        · rw [ParserState.current, hts]
          exact List.mem_singleton.1 hu
      rw [hcurrent, ParserState.advance]
  | report _ _ ih => exact ih
  | @reportNesting t _ ih =>
    unfold ParserState.reportNesting
    split
    · exact ih
    · exact ih
  | level _ _ ih => exact ih

/-- The tokens that are left stand apart from each other. -/
theorem apart_tokens (hs : s.Along text read) : Apart s.tokens where
  ordered := by
    have hall : s.tokens.Sublist read.all :=
      hs.tokens.sublist.trans (List.sublist_append_left _ _)
    exact hs.laid.ordered.sublist hall
  solid t ht := (hs.laid.tokens t (hs.tokens.subset ht)).2

/-- The current token stands before all others that are left. -/
theorem current_le_of_mem (hs : s.Along text read) :
    ∀ u ∈ s.tokens, s.current.pos.offset ≤ u.pos.offset := by
  have hapart := apart_tokens hs
  intro u hu
  rcases hts : s.tokens with _ | ⟨v, vs⟩ <;> rw [hts] at hu hapart
  · cases hu
  · rw [ParserState.current, hts, List.headD_cons]
    rcases List.mem_cons.1 hu with rfl | hu
    · exact Nat.le_refl _
    · have hstop := (List.pairwise_cons.1 hapart.ordered).1 u hu
      have hsolid := hapart.solid v List.mem_cons_self
      omega

/-- What has been consumed where a statement ends is a segment. -/
theorem segment_of_forward (hs : s.Along text read) (hforward : s.Forward t)
    (hfew : t.tokens.length < s.tokens.length) (hsemi : s.current.kind ≠ .semicolon)
    (hends : endsStatement .endOfInput t.current = true) {ranges : List Span}
    (more : Segmented t.tokens ranges) : Segmented s.tokens (t.spanFrom s.current :: ranges) := by
  obtain ⟨ht, hbefore⟩ := hs.moves hforward.moves
  obtain ⟨own, hown, hstops⟩ := consumed_of_moves hs hforward.moves
  obtain ⟨first, own, rfl⟩ : ∃ first rest, own = first :: rest := by
    rcases own with _ | ⟨first, rest⟩
    · rw [hown] at hfew
      exact absurd hfew (Nat.lt_irrefl _)
    · exact ⟨first, rest, rfl⟩
  obtain rfl : first = s.current := by rw [ParserState.current, hown]; rfl
  rw [hown]
  refine .segment hsemi rfl (fun u hu => ⟨?_, ?_⟩) (fun u hu => ?_) (fun u hu => ?_) more
  · exact current_le_of_mem hs u (by rw [hown]; exact List.mem_append_left _ hu)
  · exact Nat.le_trans (hstops u hu) (Nat.le_max_right _ _)
  · have hle := current_le_of_mem ht u hu
    exact Nat.max_le.2 ⟨Nat.le_trans hbefore.offset hle, Nat.le_trans ht.prevEnd hle⟩
  · have hcurrent : t.current = u := by
      rw [ParserState.current, List.headD_eq_head?_getD, Option.mem_def.1 hu]
      rfl
    have hu := ht.laid.tokens u (ht.tokens.subset (List.mem_of_mem_head? hu))
    simpa [endsStatement, hcurrent, hu.1] using hends

/-- Statements that are read without a report are the segments of the tokens. -/
theorem segmented_statements (G : Consuming text read g) :
    ∀ (bound : Nat) (found : List Node) (s : ParserState), s.Along text read →
      (statements g bound found s).2.Clean →
      ∃ news, (statements g bound found s).1 = some (found.reverse ++ news) ∧
        Segmented s.tokens (news.map Node.span) := by
  intro bound
  induction bound with
  | zero =>
    intro found s _ hc
    exact absurd hc s.not_clean_reportNesting
  | succ bound ih =>
    intro found s hs hc
    by_cases hend : s.current.kind = .endOfInput
    · refine ⟨[], ?_, ?_⟩
      · rw [statements_end hend, List.append_nil]
      · rw [hs.tokens_eq_nil hend]
        exact .nil
    by_cases hsemi : s.current.kind = .semicolon
    · rw [statements_again (statementRound_semicolon hsemi (by decide))] at hc ⊢
      obtain ⟨news, hnews, hsegments⟩ := ih found s.advance hs.advance hc
      refine ⟨news, hnews, ?_⟩
      rw [hs.tokens_eq hend]
      exact .semicolon hsemi hsegments
    obtain ⟨node, t, hrun, ht, hends⟩ := statement_of_clean hend hend hsemi (clean_statementRound hc)
    rw [statements_again (statementRound_statement hend hend hsemi hrun ht hends)] at hc ⊢
    have hforward := (statement g).forward s
    rw [hrun] at hforward
    obtain ⟨news, hnews, hsegments⟩ := ih (node :: found) t (hs.moves hforward.moves).1 hc
    refine ⟨node :: news, ?_, ?_⟩
    · rw [hnews, List.reverse_cons, List.append_assoc]
      rfl
    · have hspan : node.span = t.spanFrom s.current := spans_statement node t hrun
      rw [List.map_cons, hspan]
      exact segment_of_forward hs hforward (consumes_statement G hs node t hrun) hsemi hends hsegments

/-- What gives up has reported something, now or before. -/
theorem reported_of_none (hmoves : (initial text read).Moves s) {α : Type} {p : Parser α}
    (hnone : (p.run s).1 = none) : (p.run s).2.reported ≠ [] := by
  have deep {t : ParserState} (h : (initial text read).Moves t) :
      t.tooDeep = true → t.reported ≠ [] := by
    induction h with
    | refl => exact nofun
    | advance _ ih => exact ih
    | report _ fault _ => exact fun _ => List.cons_ne_nil _ _
    | @reportNesting t _ ih =>
      unfold ParserState.reportNesting
      split
      · exact ih
      · exact fun _ => List.cons_ne_nil _ _
    | level _ _ ih => exact ih
  intro hreported
  refine p.honest s hnone ⟨?_, hreported⟩
  cases htooDeep : (p.run s).2.tooDeep with
  | false => rfl
  | true => exact absurd hreported (deep (hmoves.trans (p.forward s).moves) htooDeep)

end Parser

open KustoFacts.Parser

variable {catalog : TableNames} {text : Bytes} {p : Parsed}

/-- Resolving moves nothing. -/
theorem Node.spans_resolve (n : Node) (scopes : Scopes) (stance : Stance) :
    (n.resolve catalog scopes stance).children.map span = n.children.map span := by
  have hbare := congrArg children (@bare_resolve catalog scopes stance n)
  rw [children_bare, children_bare] at hbare
  have hspans := congrArg (List.map span) hbare
  simpa only [List.map_map, Function.comp_def, span_bare] using hspans

/-- The root statements of a text without faults are the segments of its tokens. -/
theorem segmented_parse (h : parse catalog text = .ok p) (hp : p.diagnostics = []) :
    ∃ read, tokenize p.text = .ok read ∧ Apart read.tokens ∧
      Segmented read.tokens (p.root.children.map Node.span) := by
  obtain ⟨read, nodes, hread, -, hreads, hroot⟩ := parse_sound h hp
  have htext : p.text = Parsed.withoutMark text := by
    obtain ⟨-, -, rfl⟩ := parse_ok h
    rfl
  have hinitial := along_initial hread
  have hstart : (start (Parsed.withoutMark text) read).Along (Parsed.withoutMark text) read :=
    { hinitial with }
  obtain ⟨news, hnews, hsegments⟩ := segmented_statements (consuming_reachIn _ _ _ _) _ [] _ hstart
    hreads.2
  obtain rfl : nodes = news := Option.some.inj (hreads.1.symm.trans hnews)
  refine ⟨read, htext ▸ hread, apart_tokens hinitial, ?_⟩
  have hslots : (nodes.map (·.inSlot .statement)).map Node.span = nodes.map Node.span := by
    simp [Function.comp_def]
  rw [hroot, Node.spans_resolve, queryOf, Node.children, hslots]
  exact hsegments

/-- What a text without faults is read as. Every token other than a semicolon stands within exactly
    one root statement, and between two root statements next to each other there are semicolons, one
    at least, and no other tokens. And whatever the text, wherever the parser can get to, a step gives
    up only when something has been reported. -/
theorem accepted_parse (h : parse catalog text = .ok p) :
    ∃ read, tokenize p.text = .ok read ∧
      (p.diagnostics = [] →
        (∀ t ∈ read.tokens, t.kind ≠ .semicolon →
          p.root.children.countP (fun n => decide (n.span.Holds t)) = 1) ∧
        ∀ left right, [left, right] <:+: p.root.children →
          (∃ t ∈ read.tokens, t.Between left.span right.span) ∧
          ∀ t ∈ read.tokens, t.Between left.span right.span → t.kind = .semicolon) ∧
      ∀ s, (initial p.text read).Moves s → ∀ {α : Type} (step : Parser α),
        (step.run s).1 = none → (step.run s).2.reported ≠ [] := by
  obtain ⟨read, hread, hparsed⟩ := parse_ok h
  have htext : p.text = Parsed.withoutMark text := by rw [hparsed]; rfl
  rw [← htext] at hread
  refine ⟨read, hread, fun hp => ?_, fun s hmoves _ step => reported_of_none hmoves⟩
  obtain ⟨read', hread', hapart, hsegments⟩ := segmented_parse h hp
  obtain rfl : read = read' := Except.ok.inj (hread.symm.trans hread')
  refine ⟨fun t ht hkind => ?_, fun left right hnext => ?_⟩
  · have hcount := hsegments.count hapart t ht hkind
    rwa [List.countP_map] at hcount
  · exact hsegments.between hapart (hnext.map Node.span)

/-- A text of two statements with more than one semicolon between them, and one inside of the
    first. -/
theorem accepted_parse_function :
    ∃ p read left right, parse .empty (bytes "let f=(){T;U};;f()") = .ok p ∧
      tokenize p.text = .ok read ∧ p.diagnostics = [] ∧ p.root.children = [left, right] ∧
      (∀ t ∈ read.tokens, t.kind ≠ .semicolon →
        [left, right].countP (fun n => decide (n.span.Holds t)) = 1) ∧
      ∀ t ∈ read.tokens, t.Between left.span right.span → t.kind = .semicolon := by
  have hview : (cleanRoot? .empty (bytes "let f=(){T;U};;f()")).map (·.children.length) =
      some 2 := by decide +kernel
  obtain ⟨p, hparse, hp, hlength⟩ := parse_of_clean hview
  obtain ⟨left, right, hchildren⟩ := List.length_eq_two.1 hlength
  obtain ⟨read, hread, haccepted, -⟩ := accepted_parse hparse
  obtain ⟨hcount, hbetween⟩ := haccepted hp
  rw [hchildren] at hcount hbetween
  exact ⟨p, read, left, right, hparse, hread, hp, hchildren, hcount,
    (hbetween left right List.infix_rfl).2⟩

end KustoFacts
