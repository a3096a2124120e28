import KustoFacts.Proofs.Json.Strings
import KustoFacts.Proofs.Text.Cutting

/-!
    Values of JSON written and read back. A value whose strings are UTF-8 is read back from its text,
    whatever follows: the lemmas about lists take for granted what is known of their items, and an
    induction on the value puts them together. Numbers keep their spelling and are left out, as
    facts have none. -/

namespace KustoFacts.Json

variable {style : Style} {v : Json} {steps : Nat} {rest : Bytes}

/-- Values without numbers whose strings are UTF-8. -/
inductive Textual : Json → Prop
  | null : Textual .null
  | bool (b : Bool) : Textual (.bool b)
  | string {text : Bytes} (h : Utf8.isValid text = true) : Textual (.string text)
  | array {items : List Json} (h : ∀ v ∈ items, Textual v) : Textual (.array items)
  | object {members : List (Bytes × Json)} (hnames : ∀ m ∈ members, Utf8.isValid m.1 = true)
      (h : ∀ m ∈ members, Textual m.2) : Textual (.object members)

/-! ### Texts of values -/

theorem render_array (style : Style) (items : List Json) : (Json.array items).render style =
    byteOf '[' :: (renderItems style items ++ [byteOf ']']) := by
  rw [render]
  rfl

theorem render_object (style : Style) (members : List (Bytes × Json)) :
    (Json.object members).render style = 0x7B :: (renderMembers style members ++ [0x7D]) := by
  rw [render]
  rfl

theorem renderItems_cons (style : Style) (v w : Json) (items : List Json) :
    renderItems style (v :: w :: items) =
      v.render style ++ byteOf ',' :: renderItems style (w :: items) := by
  rw [renderItems, List.append_assoc]
  rfl

/-- A member as it stands in an object. -/
def renderMember (style : Style) (m : Bytes × Json) : Bytes :=
  doubleQuote :: ((Utf8.glyphs m.1).flatMap style.unit ++ doubleQuote :: byteOf ':' ::
    m.2.render style)

theorem renderMembers_singleton (style : Style) (m : Bytes × Json) :
    renderMembers style [m] = renderMember style m := by
  rw [renderMembers, renderMember, Style.string, List.append_assoc, List.append_assoc]
  rfl

theorem renderMembers_cons (style : Style) (m m' : Bytes × Json) (members : List (Bytes × Json)) :
    renderMembers style (m :: m' :: members) =
      renderMember style m ++ byteOf ',' :: renderMembers style (m' :: members) := by
  rw [renderMembers, ← renderMembers_singleton, renderMembers,
    List.append_assoc _ (bytes ",")]
  rfl

/-- What the text of a value begins with. -/
theorem Textual.head (h : v.Textual) (style : Style) : ∃ b tail,
    v.render style = b :: tail ∧ isSpace b = false ∧ b ≠ byteOf ']' := by
  cases h with
  | null => exact ⟨byteOf 'n', bytes "ull", rfl, by decide, by decide⟩
  | bool b =>
    cases b
    · exact ⟨byteOf 'f', bytes "alse", rfl, by decide, by decide⟩
    · exact ⟨byteOf 't', bytes "rue", rfl, by decide, by decide⟩
  | string => exact ⟨doubleQuote, _, rfl, by decide, by decide⟩
  | array => exact ⟨_, _, render_array .., by decide, by decide⟩
  | object => exact ⟨_, _, render_object .., by decide, by decide⟩

theorem skipSpace_cons {b : UInt8} (h : isSpace b = false) (rest : Bytes) :
    skipSpace (b :: rest) = b :: rest := List.dropWhile_cons_of_neg (by simp [h])

/-! ### Reading them back -/

/-- A value is read from its text, whatever follows, in more steps than that has bytes. -/
def Reads (style : Style) (v : Json) : Prop := ∀ (steps : Nat) (rest : Bytes),
  (v.render style).length ≤ steps →
    readValue (steps + 1) (v.render style ++ rest) = some (v, rest)

theorem readItems_written (items : List Json) (hreads : ∀ v ∈ items, Reads style v)
    (hitems : items ≠ []) (found : List Json) (hsteps : (renderItems style items).length ≤ steps) :
    readItems (steps + 2) found (renderItems style items ++ byteOf ']' :: rest) =
      some (.array (found.reverse ++ items), rest) := by
  induction items generalizing found steps with
  | nil => exact absurd rfl hitems
  | cons v items ih =>
    obtain ⟨hv, hmore⟩ := List.forall_mem_cons.1 hreads
    rcases items with _ | ⟨w, items⟩
    · rw [renderItems] at hsteps ⊢
      rw [readItems, hv steps _ hsteps]
      dsimp only
      rw [skipSpace_cons (by decide)]
      dsimp only
      rw [if_neg (by decide), if_pos rfl, List.reverse_cons]
    · rw [renderItems_cons, List.length_append, List.length_cons] at hsteps
      rw [renderItems_cons, List.append_assoc, readItems, hv steps _ (by omega)]
      obtain ⟨steps, rfl⟩ : ∃ n, steps = n + 1 := ⟨steps - 1, by omega⟩
      dsimp only [List.cons_append]
      rw [skipSpace_cons (by decide)]
      dsimp only
      rw [if_pos rfl, ih hmore (List.cons_ne_nil _ _) (v :: found) (by omega),
        List.reverse_cons, List.append_assoc]
      rfl

/-- A member is read, and the byte behind it decides how to go on. -/
theorem readMembers_member {m : Bytes × Json} {b : UInt8} (hname : Utf8.isValid m.1 = true)
    (hm : Reads style m.2) (hb : isSpace b = false) (found : List (Bytes × Json))
    (hsteps : (renderMember style m).length ≤ steps) :
    readMembers (steps + 2) found (renderMember style m ++ b :: rest) =
      if b = byteOf ',' then readMembers (steps + 1) (m :: found) rest
      else if b = 0x7D then some (.object (m :: found).reverse, rest)
      else none := by
  obtain ⟨name, v⟩ := m
  have hlength : (v.render style).length ≤ steps := by
    simp only [renderMember, List.length_cons, List.length_append] at hsteps
    omega
  rw [renderMember, List.cons_append, List.append_assoc, List.cons_append, List.cons_append,
    readMembers, skipSpace_cons (by decide)]
  dsimp only
  rw [if_neg (by simp), readString_written style hname]
  dsimp only
  rw [skipSpace_cons (by decide)]
  dsimp only
  rw [if_neg (by simp)]
  simp only [hm steps (b :: rest) hlength, skipSpace_cons hb]

theorem readMembers_written (members : List (Bytes × Json))
    (hnames : ∀ m ∈ members, Utf8.isValid m.1 = true) (hreads : ∀ m ∈ members, Reads style m.2)
    (hmembers : members ≠ []) (found : List (Bytes × Json))
    (hsteps : (renderMembers style members).length ≤ steps) :
    readMembers (steps + 2) found (renderMembers style members ++ 0x7D :: rest) =
      some (.object (found.reverse ++ members), rest) := by
  induction members generalizing found steps with
  | nil => exact absurd rfl hmembers
  | cons m members ih =>
    obtain ⟨hname, hmorenames⟩ := List.forall_mem_cons.1 hnames
    obtain ⟨hm, hmore⟩ := List.forall_mem_cons.1 hreads
    rcases members with _ | ⟨m', members⟩
    · rw [renderMembers_singleton] at hsteps ⊢
      rw [readMembers_member hname hm (by decide) found hsteps, if_neg (by decide), if_pos rfl,
        List.reverse_cons]
    · rw [renderMembers_cons, List.length_append, List.length_cons] at hsteps
      rw [renderMembers_cons, List.append_assoc, List.cons_append,
        readMembers_member hname hm (by decide) found (by omega), if_pos rfl]
      obtain ⟨steps, rfl⟩ : ∃ n, steps = n + 1 := ⟨steps - 1, by omega⟩
      rw [ih hmorenames hmore (List.cons_ne_nil _ _) (m :: found) (by omega),
        List.reverse_cons, List.append_assoc]
      rfl

theorem renderItems_head {items : List Json} (h : ∀ v ∈ items, Textual v) (hitems : items ≠ [])
    (style : Style) : ∃ b tail,
      renderItems style items = b :: tail ∧ isSpace b = false ∧ b ≠ byteOf ']' := by
  rcases items with _ | ⟨v, _ | ⟨w, items⟩⟩
  · exact absurd rfl hitems
  · rw [renderItems]
    exact (h v List.mem_cons_self).head style
  · obtain ⟨b, tail, htext, hb⟩ := (h v List.mem_cons_self).head style
    exact ⟨b, _, by rw [renderItems_cons, htext, List.cons_append], hb⟩

theorem renderMembers_head {members : List (Bytes × Json)} (hmembers : members ≠ [])
    (style : Style) : ∃ tail, renderMembers style members = doubleQuote :: tail := by
  rcases members with _ | ⟨m, _ | ⟨m', members⟩⟩
  · exact absurd rfl hmembers
  · exact ⟨_, renderMembers_singleton style m⟩
  · exact ⟨_, renderMembers_cons style m m' members⟩

theorem reads_null (style : Style) : Reads style .null := by
  intro steps rest _
  have hnull : Json.null.render style = byteOf 'n' :: bytes "ull" := rfl
  rw [hnull, List.cons_append, readValue, skipSpace_cons (by decide)]
  dsimp only
  rw [if_neg (by decide), if_neg (by decide), if_neg (by decide), if_pos rfl,
    Bytes.after?_append]
  rfl

theorem reads_bool (style : Style) (b : Bool) : Reads style (.bool b) := by
  intro steps rest _
  cases b
  · have hfalse : (Json.bool false).render style = byteOf 'f' :: bytes "alse" := rfl
    rw [hfalse, List.cons_append, readValue, skipSpace_cons (by decide)]
    dsimp only
    rw [if_neg (by decide), if_neg (by decide), if_neg (by decide), if_neg (by decide),
      if_neg (by decide), if_pos rfl, Bytes.after?_append]
    rfl
  · have htrue : (Json.bool true).render style = byteOf 't' :: bytes "rue" := rfl
    rw [htrue, List.cons_append, readValue, skipSpace_cons (by decide)]
    dsimp only
    rw [if_neg (by decide), if_neg (by decide), if_neg (by decide), if_neg (by decide),
      if_pos rfl, Bytes.after?_append]
    rfl

theorem reads_string (style : Style) {text : Bytes} (h : Utf8.isValid text = true) :
    Reads style (.string text) := by
  intro steps rest _
  rw [render, Style.string, List.cons_append, List.cons_append, List.append_assoc, readValue,
    skipSpace_cons (by decide)]
  dsimp only
  rw [if_pos rfl, List.singleton_append, readString_written style h]
  rfl

theorem reads_array (style : Style) {items : List Json} (h : ∀ v ∈ items, Textual v)
    (hreads : ∀ v ∈ items, Reads style v) : Reads style (.array items) := by
  intro steps rest hsteps
  rw [render_array, List.length_cons, List.length_append, List.length_singleton] at hsteps
  obtain ⟨steps, rfl⟩ : ∃ n, steps = n + 2 := ⟨steps - 2, by omega⟩
  rw [render_array, List.cons_append, List.append_assoc, readValue, skipSpace_cons (by decide)]
  dsimp only
  rw [if_neg (by decide), if_pos rfl]
  by_cases hitems : items = []
  · subst hitems
    rw [renderItems, List.nil_append, List.singleton_append, skipSpace_cons (by decide)]
    rfl
  · obtain ⟨b, tail, htext, hspace, hb⟩ := renderItems_head h hitems style
    have hread : readItems (steps + 2) [] (renderItems style items ++ byteOf ']' :: rest) =
        some (.array items, rest) := readItems_written items hreads hitems [] (by omega)
    rw [htext] at hread ⊢
    rw [List.cons_append, skipSpace_cons hspace]
    dsimp only
    rw [if_neg hb]
    exact hread

theorem reads_object (style : Style) {members : List (Bytes × Json)}
    (hnames : ∀ m ∈ members, Utf8.isValid m.1 = true) (hreads : ∀ m ∈ members, Reads style m.2) :
    Reads style (.object members) := by
  intro steps rest hsteps
  rw [render_object, List.length_cons, List.length_append, List.length_singleton] at hsteps
  obtain ⟨steps, rfl⟩ : ∃ n, steps = n + 2 := ⟨steps - 2, by omega⟩
  rw [render_object, List.cons_append, List.append_assoc, readValue, skipSpace_cons (by decide)]
  dsimp only
  rw [if_neg (by decide), if_neg (by decide), if_pos rfl]
  by_cases hmembers : members = []
  · subst hmembers
    rw [renderMembers, List.nil_append, List.singleton_append, skipSpace_cons (by decide)]
    rfl
  · obtain ⟨tail, htext⟩ := renderMembers_head hmembers style
    have hread : readMembers (steps + 2) [] (renderMembers style members ++ 0x7D :: rest) =
        some (.object members, rest) :=
      readMembers_written members hnames hreads hmembers [] (by omega)
    rw [htext] at hread ⊢
    rw [List.cons_append, skipSpace_cons (by decide)]
    dsimp only
    rw [if_neg (by decide)]
    exact hread

theorem Textual.reads (h : v.Textual) (style : Style) : Reads style v := by
  induction h with
  | null => exact reads_null style
  | bool b => exact reads_bool style b
  | string h => exact reads_string style h
  | array h ih => exact reads_array style h ih
  | object hnames _ ih => exact reads_object style hnames ih

/-- A value without numbers is read back from its text. -/
theorem read?_render (h : v.Textual) (style : Style) : read? (v.render style) = some v := by
  have hread := h.reads style (2 * (v.render style).length + 1) [] (by omega)
  rw [List.append_nil] at hread
  rw [read?, hread]
  rfl

/-! ### Control characters -/

theorem inked_renderItems (items : List Json) (h : ∀ v ∈ items, ∀ b ∈ v.render style, Inked b) :
    ∀ b ∈ renderItems style items, Inked b := by
  induction items with
  | nil => exact List.forall_mem_nil _
  | cons v items ih =>
    obtain ⟨hv, hmore⟩ := List.forall_mem_cons.1 h
    rcases items with _ | ⟨w, items⟩
    · rwa [renderItems]
    · rw [renderItems_cons, List.forall_mem_append, List.forall_mem_cons]
      exact ⟨hv, by decide, ih hmore⟩

theorem inked_renderMember {m : Bytes × Json} (h : ∀ b ∈ m.2.render style, Inked b) :
    ∀ b ∈ renderMember style m, Inked b := by
  have hname := inked_string style m.1
  rw [Style.string, List.cons_append, List.forall_mem_cons, List.forall_mem_append] at hname
  rw [renderMember, List.forall_mem_cons, List.forall_mem_append, List.forall_mem_cons,
    List.forall_mem_cons]
  exact ⟨hname.1, hname.2.1, by decide, by decide, h⟩

theorem inked_renderMembers (members : List (Bytes × Json))
    (h : ∀ m ∈ members, ∀ b ∈ m.2.render style, Inked b) :
    ∀ b ∈ renderMembers style members, Inked b := by
  induction members with
  | nil => exact List.forall_mem_nil _
  | cons m members ih =>
    obtain ⟨hm, hmore⟩ := List.forall_mem_cons.1 h
    rcases members with _ | ⟨m', members⟩
    · rw [renderMembers_singleton]
      exact inked_renderMember hm
    · rw [renderMembers_cons, List.forall_mem_append, List.forall_mem_cons]
      exact ⟨inked_renderMember hm, by decide, ih hmore⟩

/-- The text of a value without numbers has no control characters. -/
theorem Textual.inked (h : v.Textual) (style : Style) : ∀ b ∈ v.render style, Inked b := by
  induction h with
  | null =>
    rw [render]
    decide +kernel
  | bool b => cases b <;> rw [render] <;> decide +kernel
  | string =>
    rw [render]
    exact inked_string style _
  | array _ ih =>
    rw [render_array, List.forall_mem_cons, List.forall_mem_append]
    exact ⟨by decide, inked_renderItems _ ih, List.forall_mem_singleton.2 (by decide)⟩
  | object _ _ ih =>
    rw [render_object, List.forall_mem_cons, List.forall_mem_append]
    exact ⟨by decide, inked_renderMembers _ ih, List.forall_mem_singleton.2 (by decide)⟩

end KustoFacts.Json
