import Shoutmark.Proofs.Document.Accepts
import Shoutmark.Proofs.Markup.Node

/-! The page of a document as marked text. Every part of the body adds whole nodes to the page, and
nodes that may stand where it stands; a page is what its titles write, the body's nodes and the end
of the page. Brackets of tags must not come from the words of the document, neither directly nor as
the value of a variable. -/

namespace Shoutmark.Reading

def Sheet.page (s : Sheet) : String := String.join s.html.toList

theorem Sheet.page_write (s : Sheet) (piece : String) : (s.write piece).page = s.page ++ piece := by
  simp [Sheet.page, Sheet.write]

theorem Sheet.page_writeSpaced (s : Sheet) (words : List String) :
    (s.writeSpaced words).page = s.page ++ String.join (words.map (· ++ " ")) := by
  simp [Sheet.page, Sheet.writeSpaced]

end Shoutmark.Reading

namespace Shoutmark.Document
open Shoutmark.Grammar Shoutmark.Reading Shoutmark.Markup

/-! ### Words without brackets -/

def PlainSymbols (ys : List Symbol) : Prop := ∀ a, .token a ∈ ys → Plain a

def PlainValues (v : Variables) : Prop := ∀ name value, v.get? name = some value → Plain value

theorem plainSymbols_of_spelling {u : List String} {ys : List Symbol} (hs : Spelling u ys)
    (hu : ∀ t ∈ u, Plain t) : PlainSymbols ys := by
  induction hs with
  | nil => exact fun a ha => nomatch ha
  | @cons t y u ys ht _ ih =>
    intro a ha
    rcases List.mem_cons.mp ha with rfl | ha
    · exact (show t = a from ht) ▸ hu t List.mem_cons_self
    · exact ih (fun r hr => hu r (List.mem_cons_of_mem t hr)) a ha

theorem PlainSymbols.tail {y : Symbol} {ys : List Symbol} (h : PlainSymbols (y :: ys)) :
    PlainSymbols ys :=
  fun a ha => h a (List.mem_cons_of_mem y ha)

theorem PlainSymbols.left {xs ys : List Symbol} (h : PlainSymbols (xs ++ ys)) : PlainSymbols xs :=
  fun a ha => h a (List.mem_append_left ys ha)

theorem PlainSymbols.right {xs ys : List Symbol} (h : PlainSymbols (xs ++ ys)) : PlainSymbols ys :=
  fun a ha => h a (List.mem_append_right xs ha)

theorem Words.plain {k : Keyword} {ws : Words k} (h : PlainSymbols ws.yield) :
    ∀ w ∈ ws.val, Plain w :=
  fun w hw => h w (List.mem_map_of_mem hw)

theorem plain_phraseOf {ws : List String} (h : ∀ w ∈ ws, Plain w) : Plain (phraseOf ws) :=
  (Plain.intercalate plain_space h).strip

theorem plain_textPiece {w : String} (h : Plain w) : Plain (textPiece w) := by
  unfold textPiece
  split
  · exact h
  · exact h.append plain_space

theorem PlainValues.set {v : Variables} {name value : String} (hv : PlainValues v)
    (h : Plain value) : PlainValues (v.set name value) := by
  intro n w hw
  by_cases hn : n = name
  · rw [hn, Variables.get?_set_self] at hw
    exact Option.some.inj hw ▸ h
  · rw [Variables.get?_set_of_ne hn] at hw
    exact hv n w hw

/-! ### What is added to a page -/

/-- The second sheet has more nodes on its page than the first, all of which may stand in the
element; it has the same title, and its values are plain. -/
structure Adds (lists : Bool) (parent : Option Element) (s s' : Sheet) : Prop where
  nodes : ∃ ns, s'.page = s.page ++ writeAll ns ∧ ∀ n ∈ ns, Fits lists parent n
  title : s'.title = s.title
  values : PlainValues s'.values

namespace Adds

variable {lists : Bool} {parent : Option Element} {s s' s'' : Sheet}

theorem refl (hs : PlainValues s.values) : Adds lists parent s s :=
  ⟨⟨[], by simp [writeAll], fun n hn => nomatch hn⟩, rfl, hs⟩

theorem trans (h : Adds lists parent s s') (h' : Adds lists parent s' s'') :
    Adds lists parent s s'' := by
  obtain ⟨ns, hns, fits⟩ := h.nodes
  obtain ⟨ms, hms, fits'⟩ := h'.nodes
  refine ⟨⟨ns ++ ms, ?_, ?_⟩, h'.title.trans h.title, h'.values⟩
  · rw [hms, hns, writeAll_append, String.append_assoc]
  · intro n hn
    exact (List.mem_append.mp hn).elim (fits n) (fits' n)

theorem write (hs : PlainValues s.values) {piece : String} (ns : List Node)
    (hp : piece = writeAll ns) (fits : ∀ n ∈ ns, Fits lists parent n) :
    Adds lists parent s (s.write piece) :=
  ⟨⟨ns, by rw [Sheet.page_write, hp], fits⟩, rfl, hs⟩

theorem text (hs : PlainValues s.values) {piece : String} (hp : Plain piece)
    (hf : framed parent = false) : Adds lists parent s (s.write piece) := by
  refine write hs [.text piece] (by simp [writeAll, Node.write]) fun n hn => ?_
  rw [List.mem_singleton.mp hn]
  exact .text hp fun h => by rw [hf] at h; cases h

/-- Between the tags of an element stands what may stand in it. -/
theorem enclose {e : Element} {lead tail before after : String} (hlead : Blank lead)
    (htail : Blank tail)
    (he : ∀ ns, (∀ n ∈ ns, Fits lists (some e) n) → Fits lists parent (.element e ns))
    (hbefore : before = bracketed e.opening ++ lead)
    (hafter : after = bracketed ("/" ++ e.name) ++ tail)
    (h : Adds lists (some e) (s.write before) s') : Adds lists parent s (s'.write after) := by
  obtain ⟨ns, hns, fits⟩ := h.nodes
  have content : ∀ n ∈ Node.text lead :: ns, Fits lists (some e) n := by
    intro n hn
    rcases List.mem_cons.mp hn with rfl | hn
    · exact hlead.fits
    · exact fits n hn
  refine ⟨⟨[.element e (.text lead :: ns), .text tail], ?_, ?_⟩, h.title, h.values⟩
  · rw [Sheet.page_write, hns, Sheet.page_write, hbefore, hafter]
    simp [writeAll, Node.write, String.append_assoc]
  · intro n hn
    rcases List.mem_cons.mp hn with rfl | hn
    · exact he _ content
    · rw [List.mem_singleton.mp hn]
      exact htail.fits

theorem define (hs : PlainValues s.values) {name value : String} (hv : Plain value) :
    Adds lists parent s (s.define name value) :=
  ⟨(refl hs).nodes, rfl, hs.set hv⟩

theorem tell (h : Adds lists parent s s') (e : Event) : Adds lists parent s (s'.tell e) :=
  ⟨h.nodes, h.title, h.values⟩

end Adds

/-! ### Forms -/

variable {lists : Bool} {parent : Option Element}

theorem framed_of_flows (hf : flows parent = true) : framed parent = false := by
  cases parent with
  | none => rfl
  | some e =>
    revert hf
    cases e <;> decide

theorem adds_styled {s : Sheet} (hs : PlainValues s.values) (hf : flows parent = true)
    (style : Style) {ws : Words .mkay} (hw : ∀ w ∈ ws.val, Plain w) :
    Adds lists parent s ((Form.styled style ws).render s) := by
  have hspaced : Plain (String.join (ws.val.map (· ++ " "))) := by
    refine Plain.join fun t ht => ?_
    obtain ⟨w, hw', rfl⟩ := List.mem_map.mp ht
    exact (hw w hw').append plain_space
  have inner (e : Element) (before : String) (he : framed (some e) = false) :
      Adds lists (some e) (s.write before) ((s.write before).writeSpaced ws.val) := by
    refine ⟨⟨[.text (String.join (ws.val.map (· ++ " ")))], ?_, fun n hn => ?_⟩, rfl, hs⟩
    · rw [Sheet.page_writeSpaced]
      simp [writeAll, Node.write]
    · rw [List.mem_singleton.mp hn]
      exact .text hspaced fun h => by rw [he] at h; cases h
  cases style with
  | bold =>
    exact (inner .b _ rfl).enclose blank_empty blank_empty (fun _ => .styled hf (Or.inl rfl))
      rfl rfl
  | italics =>
    exact (inner .i _ rfl).enclose blank_empty blank_empty (fun _ => .styled hf (Or.inr rfl))
      rfl rfl

theorem adds_media {s : Sheet} (hs : PlainValues s.values) (hf : flows parent = true) (m : Medium)
    {a : String} (ha : Plain a) : Adds lists parent s ((Form.media m a).render s) := by
  have hlead : Blank "\n  " := by decide
  have fits {e : Element} {kind : String} (he : e = .audio ∨ e = .video) (hk : Plain kind) :
      ∀ n ∈ [.element e [.text "\n  ", .source a kind, .text "\n"], .text "\n"],
        Fits lists parent n := by
    have content : ∀ n ∈ [Node.text "\n  ", .source a kind, .text "\n"],
        Fits lists (some e) n := by
      simp only [List.forall_mem_cons]
      exact ⟨hlead.fits, .source he ha hk, blank_line.fits, fun n hn => nomatch hn⟩
    simp only [List.forall_mem_cons]
    exact ⟨.player hf he rfl content, blank_line.fits, fun n hn => nomatch hn⟩
  have kinds : Plain "audio/mpeg" ∧ Plain "video/mp4" := by decide
  cases m with
  | audio =>
    refine (Adds.write hs _ ?_ (fits (Or.inl rfl) kinds.1)).tell _
    apply String.toList_inj.mp
    simp [Medium.player, player, writeAll, Node.write, bracketed, sourceTag, Element.opening,
      Element.name]
  | video =>
    refine (Adds.write hs _ ?_ (fits (Or.inr rfl) kinds.2)).tell _
    apply String.toList_inj.mp
    simp [Medium.player, player, writeAll, Node.write, bracketed, sourceTag, Element.opening,
      Element.name]

theorem Form.adds {form : Form} (hp : PlainSymbols form.yield) (hf : flows parent = true)
    {s : Sheet} (hs : PlainValues s.values) : Adds lists parent s (form.render s) := by
  cases form with
  | text w _ =>
    have hw : Plain w := hp w (by simp [Form.yield])
    exact .text hs (plain_textPiece hw) (framed_of_flows hf)
  | styled style ws =>
    exact adds_styled hs hf style (Words.plain hp.tail.tail.left)
  | newline =>
    refine .write hs [.lineBreak, .text "\n"] (by simp [writeAll, Node.write, bracketed]) ?_
    simp only [List.forall_mem_cons]
    exact ⟨.lineBreak hf, blank_line.fits, List.forall_mem_nil _⟩
  | media m a => exact adds_media hs hf m (hp a (by simp [Form.yield]))
  | define n ws =>
    have hw : ∀ w ∈ ws.val, Plain w := Words.plain hp.tail.tail.tail.tail.tail.left
    exact (Adds.define hs (plain_phraseOf hw)).tell _
  | use n =>
    rw [Form.render]
    split
    · rename_i value hv
      exact .text hs ((hs n value hv).append plain_space) (framed_of_flows hf)
    · exact .refl hs

/-- What adds nodes once adds nodes any number of times. -/
theorem Part.adds {α : Type} (P : Part α)
    (once : ∀ x s, PlainSymbols (P.yield x) → PlainValues s.values →
      Adds lists parent s (P.render x s))
    {xs : List α} (hp : PlainSymbols (P.yieldAll xs)) {s : Sheet} (hs : PlainValues s.values) :
    Adds lists parent s (P.renderAll xs s) := by
  induction xs generalizing s with
  | nil => exact .refl hs
  | cons x xs ih =>
    have hx : PlainSymbols (P.yield x) := hp.left
    have hxs : PlainSymbols (P.yieldAll xs) := hp.right
    have first : Adds lists parent s (P.render x s) := once x s hx hs
    exact first.trans (ih hxs first.values)

theorem adds_forms (hf : flows parent = true) {fs : List Form}
    (hp : PlainSymbols (formsYield fs)) {s : Sheet} (hs : PlainValues s.values) :
    Adds lists parent s (renderForms fs s) :=
  formPart.adds (fun _ _ hx hs => Form.adds hx hf hs) hp hs

/-! ### Blocks and the body -/

theorem adds_item (allowed : lists = true) {fs : List Form} (hp : PlainSymbols (itemYield fs))
    {s : Sheet} (hs : PlainValues s.values) : Adds lists (some .ul) s (renderItem fs s) := by
  have hfs : PlainSymbols (formsYield fs) := hp.tail.tail.left
  have inner : Adds lists (some .li) (s.write "<li>") (renderForms fs (s.write "<li>")) :=
    adds_forms rfl hfs hs
  exact inner.enclose blank_empty blank_line (fun _ => .item allowed) rfl rfl

theorem BodyItem.adds {b : BodyItem lists} (hp : PlainSymbols b.yield) {s : Sheet}
    (hs : PlainValues s.values) : Adds lists none s (b.render s) := by
  cases b with
  | form f => exact Form.adds hp rfl hs
  | paragraph fs =>
    have hfs : PlainSymbols (formsYield fs) := hp.tail.tail.left
    have inner : Adds lists (some .p) (s.write "<p>") (renderForms fs (s.write "<p>")) :=
      adds_forms rfl hfs hs
    exact inner.enclose blank_empty blank_line (fun _ => .paragraph) rfl rfl
  | list allowed items =>
    have hitems : PlainSymbols (itemPart.yieldAll items) := hp.tail.tail.left
    have inner : Adds lists (some .ul) (s.write "<ul>\n") (renderItems items (s.write "<ul>\n")) :=
      itemPart.adds (fun _ _ hx hs => adds_item allowed hx hs) hitems hs
    exact inner.enclose blank_line blank_line (fun _ => .list allowed) rfl rfl

theorem adds_body {body : List (BodyItem lists)} (hp : PlainSymbols (bodyYield body)) {s : Sheet}
    (hs : PlainValues s.values) : Adds lists none s (renderBody body s) :=
  bodyPart.adds (fun _ _ hx hs => BodyItem.adds hx hs) hp hs

/-! ### Titles -/

def preamble (title : String) : String :=
  "<html><head><title>" ++ title ++ "</title></head><body>\n"

def HeadItem.title? : HeadItem → Option String
  | .title ws => some (phraseOf ws.val)
  | .junk _ _ _ => none

def headTitles (head : Option (List HeadItem)) : List String :=
  (head.getD []).filterMap HeadItem.title?

def Tree.titles (D : Tree lists) : List String := headTitles D.head

theorem render_head (head : Option (List HeadItem)) (s : Sheet) :
    (renderHead head s).page = s.page ++ String.join ((headTitles head).map preamble) ∧
      (renderHead head s).title = (headTitles head).getLast?.or s.title := by
  have hitems : renderHead head s = renderHead (some (head.getD [])) s := by
    cases head <;> rfl
  rw [hitems, headTitles]
  clear hitems
  generalize head.getD [] = items
  induction items generalizing s with
  | nil => simp [renderHead]
  | cons h items ih =>
    obtain ⟨hpage, htitle⟩ := ih (h.render s)
    have hr : renderHead (some (h :: items)) s = renderHead (some items) (h.render s) := rfl
    rw [hr, hpage, htitle]
    cases h with
    | title ws =>
      have hp : ((HeadItem.title ws).render s).page = s.page ++ preamble (phraseOf ws.val) :=
        Sheet.page_write _ _
      have ht : ((HeadItem.title ws).render s).title = some (phraseOf ws.val) := rfl
      have hs : (HeadItem.title ws).title? = some (phraseOf ws.val) := rfl
      rw [List.filterMap_cons_some hs, hp, ht, List.map_cons, String.join_cons,
        String.append_assoc, List.getLast?_cons]
      refine ⟨rfl, ?_⟩
      cases (items.filterMap HeadItem.title?).getLast? <;> rfl
    | junk t _ _ => exact ⟨rfl, rfl⟩

theorem render_comments (comments : List (Words .tldr)) (s : Sheet) :
    (renderComments comments s).page = s.page ∧ (renderComments comments s).title = s.title := by
  induction comments generalizing s with
  | nil => exact ⟨rfl, rfl⟩
  | cons ws comments ih => exact ih (s.tell (.diagnostic (.comment (phraseOf ws.val))))

theorem plain_titles {D : Tree lists} (hp : PlainSymbols D.yield) : ∀ t ∈ D.titles, Plain t := by
  intro t ht
  obtain ⟨item, hitem, hs⟩ := List.mem_filterMap.mp ht
  have hhead : PlainSymbols (headYield D.head) := hp.tail.right.left
  cases hh : D.head with
  | none =>
    rw [hh] at hitem
    cases hitem
  | some items =>
    rw [hh] at hitem hhead
    cases item with
    | junk w _ _ => cases hs
    | title ws =>
      cases hs
      have hws : PlainSymbols (HeadItem.title ws).yield :=
        fun a ha => hhead.tail.tail.left a (List.mem_flatMap_of_mem hitem ha)
      exact plain_phraseOf (Words.plain hws.tail.tail.left)

/-! ### The end of a page -/

def preambleTags : List String := ["html", "head", "title", "/title", "/head", "body"]

theorem preamble_eq (t : String) : preamble t =
    String.join (["html", "head", "title"].map bracketed) ++ t ++
      (String.join (["/title", "/head", "body"].map bracketed) ++ "\n") := by
  have before : "<html><head><title>" = String.join (["html", "head", "title"].map bracketed) := by
    decide
  have after : "</title></head><body>\n" =
      String.join (["/title", "/head", "body"].map bracketed) ++ "\n" := by
    decide
  unfold preamble
  exact congr (congrArg (fun b => HAppend.hAppend (b ++ t)) before) after

theorem tagsOf_preamble {t : String} (ht : Plain t) (rest : List Char) :
    tagsOf ((preamble t).toList ++ rest) = preambleTags ++ tagsOf rest := by
  have opening : ∀ t ∈ ["html", "head", "title"], Plain t := by decide
  have closing : ∀ t ∈ ["/title", "/head", "body"], Plain t := by decide
  rw [preamble_eq]
  simp only [String.toList_append, List.append_assoc]
  rw [tagsOf_bracketedAll opening, ht.tagsOf, tagsOf_bracketedAll closing,
    blank_line.plain.tagsOf]
  rfl

theorem tagsOf_preambles {ts : List String} (h : ∀ t ∈ ts, Plain t) (rest : List Char) :
    tagsOf ((String.join (ts.map preamble)).toList ++ rest) =
      ts.flatMap (fun _ => preambleTags) ++ tagsOf rest := by
  induction ts with
  | nil => rfl
  | cons t ts ih =>
    rw [List.map_cons, String.join_cons, String.toList_append, List.append_assoc,
      tagsOf_preamble (h t List.mem_cons_self), ih fun u hu => h u (List.mem_cons_of_mem t hu),
      List.flatMap_cons, List.append_assoc]

def ending : String := "</body></html>"

theorem tagsOf_ending (rest : List Char) :
    tagsOf (ending.toList ++ rest) = ["/body", "/html"] ++ tagsOf rest := by
  have htags : ∀ t ∈ ["/body", "/html"], Plain t := by decide
  exact tagsOf_bracketedAll htags rest

/-- Where no tag of a text is the first tag of the ending, a page that is the text and the ending
has the ending nowhere else. -/
theorem ending_once {tags : List String} {text u v : List Char}
    (htext : ∀ rest, tagsOf (text ++ rest) = tags ++ tagsOf rest) (hb : "/body" ∉ tags)
    (h : text ++ ending.toList = u ++ (ending.toList ++ v)) : v = [] := by
  have hend : tagsOf ending.toList = ["/body", "/html"] := by
    rw [← List.append_nil ending.toList, tagsOf_ending]
    rfl
  rcases List.append_eq_append_iff.mp h with ⟨w, -, hw⟩ | ⟨w, rfl, hv⟩
  · have hlen := congrArg List.length hw
    simp only [List.length_append] at hlen
    exact List.eq_nil_of_length_eq_zero (by omega)
  · cases w with
    | nil =>
      exact List.append_cancel_left (hv.trans (List.append_nil _).symm)
    | cons c w =>
      -- an ending that starts within the text would bring one more tag of its kind
      have hc : '<' = c := (List.cons.inj hv).1
      have hhead : tagsOf (c :: w ++ ending.toList) = "/body" :: tagsOf (w ++ ending.toList) := by
        have hfirst : tagsOf (c :: w ++ ending.toList) = ["/body", "/html"] ++ tagsOf v := by
          rw [← hv, tagsOf_ending]
        rw [List.cons_append, tagsOf, if_pos hc.symm] at hfirst ⊢
        rw [(List.cons.inj hfirst).1]
      have hone : (tagsOf (u ++ c :: w ++ ending.toList)).count "/body" = 1 := by
        rw [htext, hend, List.count_append, List.count_eq_zero_of_not_mem hb]
        decide
      have htail : 1 ≤ (tagsOf (w ++ ending.toList)).count "/body" := by
        rw [List.one_le_count_iff]
        exact (tagsOf_suffix w _).subset (by rw [hend]; decide)
      have hsub := (tagsOf_suffix u (c :: w ++ ending.toList)).sublist.count_le "/body"
      rw [← List.append_assoc, hone, hhead, List.count_cons_self] at hsub
      omega

/-! ### Whole pages -/

/-- The page of a document is the preambles of its titles, nodes that may stand in a body, and the
ending. -/
theorem Tree.render_page (D : Tree lists) (hp : PlainSymbols D.yield) :
    ∃ body : List Node,
      D.render.page = String.join (D.titles.map preamble) ++ writeAll body ++ ending ∧
      D.render.title = D.titles.getLast? ∧ ∀ n ∈ body, Fits lists none n := by
  let s := renderHead D.head (renderComments D.comments .blank)
  obtain ⟨hcpage, hctitle⟩ := render_comments D.comments .blank
  obtain ⟨hhpage, hhtitle⟩ := render_head D.head (renderComments D.comments .blank)
  have hspage : s.page = String.join (D.titles.map preamble) := by
    rw [hhpage, hcpage]
    exact String.empty_append
  have hstitle : s.title = D.titles.getLast? := by
    rw [hhtitle, hctitle]
    exact Option.or_none
  have hvalues : PlainValues s.values := by
    rw [values_renderHead, values_renderComments]
    exact fun n v h => nomatch h
  have hbody : PlainSymbols (bodyYield D.body) := hp.tail.right.right.left
  have hadds : Adds lists none s (renderBody D.body s) := adds_body hbody hvalues
  obtain ⟨body, hpage, fits⟩ := hadds.nodes
  refine ⟨body, ?_, hadds.title.trans hstitle, fits⟩
  rw [Tree.render, Sheet.page_write, hpage, hspage]
  rfl

theorem tagsOf_page {titles : List String} {body : List Node} (ht : ∀ t ∈ titles, Plain t)
    (fits : ∀ n ∈ body, Fits lists none n) (rest : List Char) :
    tagsOf ((String.join (titles.map preamble) ++ writeAll body).toList ++ rest) =
      (titles.flatMap (fun _ => preambleTags) ++ tagsAll body) ++ tagsOf rest := by
  rw [String.toList_append, List.append_assoc, tagsOf_preambles ht,
    tagsOf_writeAll fun n hn => (fits n hn).faithful, List.append_assoc]

theorem named_body {body : List Node} (fits : ∀ n ∈ body, Fits lists none n) :
    ∀ t ∈ tagsAll body, tagName t ∈ names lists := by
  intro t ht
  obtain ⟨n, hn, ht⟩ := mem_tagsAll.mp ht
  exact (fits n hn).named t ht

theorem ending_notMem {titles : List String} {body : List Node}
    (fits : ∀ n ∈ body, Fits lists none n) :
    "/body" ∉ titles.flatMap (fun _ => preambleTags) ++ tagsAll body := by
  have hname : tagName "/body" = "body" := by decide
  intro h
  rcases List.mem_append.mp h with h | h
  · obtain ⟨t, -, ht⟩ := List.mem_flatMap.mp h
    exact absurd ht (by decide)
  · have hb := named_body fits "/body" h
    rw [hname] at hb
    cases lists <;> exact absurd hb (by decide)

theorem preambles_eq_empty {ts : List String} :
    String.join (ts.map preamble) = "" ↔ ts.getLast? = none := by
  cases ts with
  | nil => exact ⟨fun _ => rfl, fun _ => rfl⟩
  | cons t ts =>
    refine ⟨fun h => ?_, fun h => ?_⟩
    · rw [List.map_cons, String.join_cons, String.append_eq_empty_iff] at h
      have hp : "<html><head><title>" ++ t ++ "</title></head><body>\n" = "" := h.1
      rw [String.append_eq_empty_iff] at hp
      exact absurd hp.2 (by decide)
    · simp at h

/-- A page that is compiled from words without brackets of tags is well nested. It has one preamble
for each title of the head, then the body and then the ending, which is nowhere else. The body is
written from a tree of nodes that stand where they may, so its tags are the tree's; they are of the
kinds that a body has, and without lists no list is among them. -/
theorem page_nested (lists : Bool) {T : List String} (hT : ∀ t ∈ T, t ≠ "" ∧ Plain t) {d : Draft}
    (hp : program lists (.start T) = .ok () d) :
    ∃ (D : Tree lists) (u rest : List String) (body : List Node),
      T = u ++ rest ∧ Spelling u D.yield ∧
      d.page = String.join (D.titles.map preamble) ++ writeAll body ++ ending ∧
      d.title = D.titles.getLast? ∧
      (String.join (D.titles.map preamble) = "" ↔ d.title = none) ∧
      (∀ n ∈ body, Fits lists none n) ∧
      tagsOf (writeAll body).toList = tagsAll body ∧
      (∀ t ∈ tagsAll body, tagName t ∈ names lists) ∧
      ∀ before after : String, d.page = before ++ ending ++ after → after = "" := by
  obtain ⟨D, u, rest, rfl, hsp, hd⟩ := tree_of_finishes ⟨d.sheet, feed_of_ok hp⟩
  have hu : ∀ t ∈ u, t ≠ "" := fun t ht => (hT t (List.mem_append_left rest ht)).1
  have hplain : PlainSymbols D.yield :=
    plainSymbols_of_spelling hsp fun t ht => (hT t (List.mem_append_left rest ht)).2
  obtain ⟨d', hp', hs⟩ := program_of_tree D rest hu hsp hd
  rw [hp] at hp'
  cases hp'
  obtain ⟨body, hpage, htitle, fits⟩ := D.render_page hplain
  rw [← hs] at hpage htitle
  have htags : tagsOf (writeAll body).toList = tagsAll body := by
    have h := tagsOf_writeAll (fun n hn => (fits n hn).faithful) []
    rwa [List.append_nil, tagsOf, List.append_nil] at h
  refine ⟨D, u, rest, body, rfl, hsp, hpage, htitle, ?_, fits, htags, named_body fits, ?_⟩
  · rw [preambles_eq_empty, ← htitle]
    rfl
  · intro before after h
    have hl : (String.join (D.titles.map preamble) ++ writeAll body).toList ++ ending.toList =
        before.toList ++ (ending.toList ++ after.toList) := by
      rw [← String.toList_append, ← List.append_assoc, ← String.toList_append,
        ← String.toList_append, ← h]
      exact congrArg String.toList hpage.symm
    have hafter : after.toList = [] :=
      ending_once (tagsOf_page (plain_titles hplain) fits) (ending_notMem fits) hl
    exact String.toList_eq_nil_iff.mp hafter

/-- A title, a variable that is used in an item of a list, and a video. -/
def gallery : List String :=
  ["#HAI", "#MAEK", "HEAD", "#GIMMEH", "TITLE", "Cats", "#MKAY", "#OIC",
    "#I", "HAZ", "x", "#IT", "IZ", "meow", "#MKAY",
    "#MAEK", "LIST", "#GIMMEH", "ITEM", "#GIMMEH", "BOLD", "big", "#MKAY",
    "#LEMME", "SEE", "x", "#MKAY", "#MKAY", "#OIC",
    "#GIMMEH", "VIDZ", "https://cats", "#MKAY", "#KTHXBYE"]

def gallerySheet : Sheet where
  html := #["<html><head><title>Cats</title></head><body>\n", "<ul>\n", "<li>", "<b>", "big ",
    "</b>", "meow ", "</li>\n", "</ul>\n", Medium.video.player "https://cats", "</body></html>"]
  values := ⟨[("x", "meow")]⟩
  title := some "Cats"
  events := #[.diagnostic (.title "Cats"), .variableDefined "x" "meow",
    .diagnostic (.video "https://cats")]

/-- The list, its item and the video are nodes of the page's body. -/
theorem page_nested_gallery :
    ∃ d, program true (.start gallery) = .ok () d ∧ d.sheet = gallerySheet ∧
      ∃ (titles : List String) (body : List Node),
        d.page = String.join (titles.map preamble) ++ writeAll body ++ ending ∧
        titles.getLast? = some "Cats" ∧ ∀ n ∈ body, Fits true none n := by
  have hfeed : feed true .fresh gallery = .finished gallerySheet := by decide +kernel
  obtain ⟨c, hp⟩ := program_finished hfeed
  obtain ⟨D, u, rest, body, -, -, hpage, htitle, -, fits, -⟩ :=
    page_nested true (T := gallery) (by decide +kernel) hp
  exact ⟨_, hp, rfl, D.titles, body, hpage, htitle.symm, fits⟩

end Shoutmark.Document
