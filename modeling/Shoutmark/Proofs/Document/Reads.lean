import Shoutmark.Proofs.Document.Tree
import Shoutmark.Proofs.Reading.Outcome

/-! The words of a document are read to its page. Each part of a tree leads from the place where it
stands to the place after it, and what it renders is written on the way. -/

namespace Shoutmark.Document
open Shoutmark.Grammar Shoutmark.Reading

/-- However the symbols are spelt, they lead from one progress to the other. -/
def Reads (lists : Bool) (p : Progress) (ys : List Symbol) (p' : Progress) : Prop :=
  ∀ u, (∀ t ∈ u, t ≠ "") → Spelling u ys → feed lists p u = p'

variable {lists : Bool}

theorem spelling_append {u : List String} {xs ys : List Symbol} :
    Spelling u (xs ++ ys) ↔ ∃ v w, u = v ++ w ∧ Spelling v xs ∧ Spelling w ys := by
  constructor
  · intro h
    exact ⟨u.take xs.length, u.drop xs.length, (List.take_append_drop xs.length u).symm,
      List.forall₂_take_append u xs ys h, List.forall₂_drop_append u xs ys h⟩
  · rintro ⟨v, w, rfl, hv, hw⟩
    exact List.rel_append hv hw

theorem Reads.nil (p : Progress) : Reads lists p [] p := by
  rintro u - ⟨⟩
  rfl

theorem Reads.append {p q r : Progress} {xs ys : List Symbol} (h₁ : Reads lists p xs q)
    (h₂ : Reads lists q ys r) : Reads lists p (xs ++ ys) r := by
  intro u hu hs
  obtain ⟨v, w, rfl, hv, hw⟩ := spelling_append.mp hs
  rw [feed_append, h₁ v (fun t ht => hu t (List.mem_append_left w ht)) hv]
  exact h₂ w (fun t ht => hu t (List.mem_append_right v ht)) hw

/-- The first symbol leads to a progress from which the others are read. -/
theorem Reads.cons {q : Place} {s : Sheet} {y : Symbol} {ys : List Symbol} {p r : Progress}
    (h : ∀ t, t ≠ "" → Spells t y → step lists q t s = p) (hr : Reads lists p ys r) :
    Reads lists (.going q s) (y :: ys) r := by
  intro u hu hs
  cases hs with
  | @cons t _ v _ ht hv =>
    rw [feed_going_cons, h t (hu t List.mem_cons_self) ht]
    exact hr v (fun t' ht' => hu t' (List.mem_cons_of_mem t ht')) hv

theorem Reads.word {q : Place} {s : Sheet} {k : Keyword} {ys : List Symbol} {p r : Progress}
    (h : ∀ t, Keyword.ofWord? t = some k → step lists q t s = p) (hr : Reads lists p ys r) :
    Reads lists (.going q s) (.word k :: ys) r :=
  .cons (fun t _ ht => h t ht) hr

theorem Reads.token {q : Place} {s : Sheet} {a : String} {ys : List Symbol} {p r : Progress}
    (h : a ≠ "" → step lists q a s = p) (hr : Reads lists p ys r) :
    Reads lists (.going q s) (.token a :: ys) r :=
  .cons (fun t hne ht => by rw [show t = a from ht] at hne ⊢; exact h hne) hr

theorem Reads.words {P : List String → Place} {s : Sheet} {k : Keyword}
    (h : ∀ ws t, t ≠ "" → Keyword.ofWord? t ≠ some k →
      step lists (P ws) t s = .going (P (ws ++ [t])) s)
    (ws : Words k) : Reads lists (.going (P []) s) ws.yield (.going (P ws.val) s) := by
  have gathers (gathered ws : List String) (hws : ∀ w ∈ ws, Keyword.ofWord? w ≠ some k) :
      Reads lists (.going (P gathered) s) (ws.map .token) (.going (P (gathered ++ ws)) s) := by
    induction ws generalizing gathered with
    | nil =>
      rw [List.append_nil]
      exact .nil _
    | cons w ws ih =>
      have hw : Keyword.ofWord? w ≠ some k := hws w List.mem_cons_self
      have hr := ih (gathered ++ [w]) fun x hx => hws x (List.mem_cons_of_mem w hx)
      rw [List.append_assoc] at hr
      exact .token (fun hne => h gathered w hne hw) hr
  exact gathers [] ws.val ws.property

/-! ### Text is no special word -/

theorem ofWord?_ne_of_isText {t : String} {k : Keyword} (ht : isText t = true)
    (hk : k.spelling.toList.head? = some '#') : Keyword.ofWord? t ≠ some k := by
  intro h
  have hup : (Text.upper t).toList.head? = some '#' := by
    rw [Keyword.ofWord?_eq_some_iff.mp h, hk]
  rw [Text.toList_upper, List.head?_map, Option.map_eq_some_iff] at hup
  obtain ⟨c, hc, hu⟩ := hup
  rw [(Text.toUpper_eq_iff (by decide)).mp hu] at hc
  simp [isText, hc] at ht

theorem stepForms_text (f : Frame) {t : String} (ht : isText t = true) (s : Sheet) :
    stepForms f t s = .going (.forms f) (s.write (textPiece t)) := by
  have hne : t ≠ "" := fun he => by simp [isText, he] at ht
  have hc : Keyword.ofWord? t ≠ some f.closing :=
    ofWord?_ne_of_isText ht (by cases f <;> decide)
  have hm : ¬ (f = .body ∧ Keyword.ofWord? t = some .maek) :=
    fun h => ofWord?_ne_of_isText ht (by decide) h.2
  rw [stepForms, gather_of_ne hne hc, if_neg hm, stepForm]
  split
  · exact absurd ‹_› (ofWord?_ne_of_isText ht (by decide))
  · exact absurd ‹_› (ofWord?_ne_of_isText ht (by decide))
  · exact absurd ‹_› (ofWord?_ne_of_isText ht (by decide))
  · rw [if_pos ht]

theorem step_useEnd (f : Frame) {n t : String} (ht : Keyword.ofWord? t = some .mkay) {s : Sheet}
    (hv : (Form.use n).Has s.values) :
    step lists (.useEnd f n) t s = .going (.forms f) ((Form.use n).render s) := by
  obtain ⟨value, hg⟩ := Option.isSome_iff_exists.mp hv
  rw [step, require_of_eq ht, useValue, Form.render, hg]

/-! ### Forms -/

theorem reads_gimmeh (f : Frame) (s : Sheet) {ys : List Symbol} {r : Progress}
    (h : Reads lists (.going (.construct f) s) ys r) :
    Reads lists (.going (.forms f) s) (.word .gimmeh :: ys) r := by
  refine .word (fun t ht => ?_) h
  rw [step, stepForms_word f ht (by cases f <;> decide) (by decide), stepForm, ht]

theorem reads_gathered {P : List String → Place} {s : Sheet} {k : Keyword} {p : Progress}
    {ws : Words k}
    (more : ∀ ws t, t ≠ "" → Keyword.ofWord? t ≠ some k →
      step lists (P ws) t s = .going (P (ws ++ [t])) s)
    (last : ∀ t, Keyword.ofWord? t = some k → step lists (P ws.val) t s = p) :
    Reads lists (.going (P []) s) (ws.yield ++ [.word k]) p :=
  .append (.words more ws) (.word last (.nil p))

/-- A form whose variable has a value leads from between two forms to between two forms. -/
theorem Form.reads (form : Form) (f : Frame) {s : Sheet} (hv : form.Has s.values) :
    Reads lists (.going (.forms f) s) form.yield (.going (.forms f) (form.render s)) := by
  cases form with
  | text w hw => exact .token (fun _ => stepForms_text f hw s) (.nil _)
  | styled style ws =>
    have opens (t : String) (ht : Keyword.ofWord? t = some style.word) :
        step lists (.construct f) t s =
          .going (.styled f style []) (s.write ("<" ++ style.tag ++ ">")) := by
      rw [step, stepConstruct, ht]
      cases style <;> rfl
    refine reads_gimmeh f s (.word opens ?_)
    exact reads_gathered (P := .styled f style) (fun _ _ hne hk => gather_of_ne hne hk _ _ _)
      (fun _ ht => gather_of_eq ht _ _ _)
  | newline =>
    have newline (t : String) (ht : Keyword.ofWord? t = some .newline) :
        step lists (.construct f) t s = .going (.forms f) (s.write "<br/>\n") := by
      rw [step, stepConstruct, ht]
    exact reads_gimmeh f s (.word newline (.nil _))
  | media m a =>
    have opens (t : String) (ht : Keyword.ofWord? t = some m.word) :
        step lists (.construct f) t s = .going (.address f m) s := by
      rw [step, stepConstruct, ht]
      cases m <;> rfl
    have close (t : String) (ht : Keyword.ofWord? t = some .mkay) :
        step lists (.addressEnd f m a) t s = .going (.forms f) ((Form.media m a).render s) :=
      require_of_eq ht s _
    exact reads_gimmeh f s (.word opens (.token (fun _ => rfl) (.word close (.nil _))))
  | define n ws =>
    have haz (t : String) (ht : Keyword.ofWord? t = some .haz) :
        step lists (.haz f) t s = .going (.name f) s := require_of_eq ht s _
    have it (t : String) (ht : Keyword.ofWord? t = some .it) :
        step lists (.it f n) t s = .going (.iz f n) s := require_of_eq ht s _
    have iz (t : String) (ht : Keyword.ofWord? t = some .iz) :
        step lists (.iz f n) t s = .going (.value f n []) s := require_of_eq ht s _
    refine .word (fun _ ht => step_i f ht s) ?_
    refine .word haz (.token (fun _ => rfl) (.word it (.word iz ?_)))
    exact reads_gathered (P := .value f n) (fun _ _ hne hk => gather_of_ne hne hk _ _ _)
      (fun _ ht => gather_of_eq ht _ _ _)
  | use n =>
    have see (t : String) (ht : Keyword.ofWord? t = some .see) :
        step lists (.see f) t s = .going (.usedName f) s := require_of_eq ht s _
    refine .word (fun _ ht => step_lemme f ht s) (.word see (.token (fun _ => rfl) ?_))
    exact .word (fun _ ht => step_useEnd f ht hv) (.nil _)

/-- What leads from a place to the same place again does so any number of times. -/
theorem Part.reads {α : Type} (P : Part α) {q : Place}
    (once : ∀ x s, Ready (P.forms x) s.values →
      Reads lists (.going q s) (P.yield x) (.going q (P.render x s)))
    {xs : List α} {s : Sheet} (hv : Ready (P.formsAll xs) s.values) :
    Reads lists (.going q s) (P.yieldAll xs) (.going q (P.renderAll xs s)) := by
  induction xs generalizing s with
  | nil => exact .nil _
  | cons x xs ih =>
    obtain ⟨hx, hxs⟩ := P.ready_formsAll_cons.mp hv
    exact .append (once x s hx) (ih hxs)

theorem reads_forms (f : Frame) {fs : List Form} {s : Sheet} (hv : Ready fs s.values) :
    Reads lists (.going (.forms f) s) (formsYield fs) (.going (.forms f) (renderForms fs s)) :=
  formPart.reads (fun form _ hf => form.reads f hf.1) (by rwa [formsAll_formPart])

theorem reads_frame (f : Frame) {fs : List Form} {s : Sheet} (hv : Ready fs s.values) :
    Reads lists (.going (.forms f) s) (formsYield fs ++ [.word f.closing])
      (f.leave ((renderForms fs s).write f.tail)) :=
  .append (reads_forms f hv) (.word (fun _ ht => gather_of_eq ht _ _ _) (.nil _))

/-! ### Blocks and the body -/

theorem reads_item {fs : List Form} {s : Sheet} (hv : Ready fs s.values) :
    Reads lists (.going .items s) (itemYield fs) (.going .items (renderItem fs s)) := by
  have gimmeh (t : String) (ht : Keyword.ofWord? t = some .gimmeh) :
      step lists .items t s = .going .itemWord s := by rw [step, if_pos ht]
  have item (t : String) (ht : Keyword.ofWord? t = some .item) :
      step lists .itemWord t s = .going (.forms .item) (s.write "<li>") := require_of_eq ht s _
  exact .word gimmeh (.word item (reads_frame .item hv))

theorem reads_items {items : List (List Form)} {s : Sheet} (hv : Ready items.flatten s.values) :
    Reads lists (.going .items s) (items.flatMap itemYield) (.going .items (renderItems items s)) :=
  itemPart.reads (fun _ _ hf => reads_item hf) (by rwa [formsAll_itemPart])

theorem BodyItem.reads (b : BodyItem lists) {s : Sheet} (hv : Ready b.forms s.values) :
    Reads lists (.going (.forms .body) s) b.yield (.going (.forms .body) (b.render s)) := by
  have maek (t : String) (ht : Keyword.ofWord? t = some .maek) :
      step lists (.forms .body) t s = .going .block s := by
    have hne : t ≠ "" := fun he => by simp [he] at ht
    rw [step, stepForms, gather_of_ne hne (by simp [ht, Frame.closing]), if_pos ⟨rfl, ht⟩]
  cases b with
  | form f => exact f.reads .body hv.1
  | paragraph fs =>
    have paragraf (t : String) (ht : Keyword.ofWord? t = some .paragraf) :
        step lists .block t s = .going (.forms .paragraph) (s.write "<p>") := by
      rw [step, if_neg (by simp [ht]), require_of_eq ht]
    exact .word maek (.word paragraf (reads_frame .paragraph hv))
  | list allowed items =>
    have list (t : String) (ht : Keyword.ofWord? t = some .list) :
        step lists .block t s = .going .items (s.write "<ul>\n") := by
      rw [step, if_pos ⟨allowed, ht⟩]
    have oic (t : String) (ht : Keyword.ofWord? t = some .oic) :
        step lists .items t (renderItems items (s.write "<ul>\n")) =
          .going (.forms .body) ((BodyItem.list allowed items).render s) := by
      rw [step, if_neg (by simp [ht]), require_of_eq ht]
      rfl
    exact .word maek (.word list (.append (reads_items hv) (.word oic (.nil _))))

theorem reads_body {body : List (BodyItem lists)} {s : Sheet}
    (hv : Ready (body.flatMap BodyItem.forms) s.values) :
    Reads lists (.going (.forms .body) s) (bodyYield body)
      (.going (.forms .body) (renderBody body s)) :=
  bodyPart.reads (fun b _ hb => b.reads hb) hv

/-! ### Comments and the head -/

theorem reads_comment (ws : Words .tldr) (s : Sheet) :
    Reads lists (.going .opening s) (commentYield ws)
      (.going .opening (s.tell (.diagnostic (.comment (phraseOf ws.val))))) := by
  have obtw (t : String) (ht : Keyword.ofWord? t = some .obtw) :
      step lists .opening t s = .going (.comment []) s := by rw [step, ht]
  refine .word obtw ?_
  exact reads_gathered (P := .comment) (fun _ _ hne hk => gather_of_ne hne hk _ _ _)
    (fun _ ht => gather_of_eq ht _ _ _)

theorem reads_comments (comments : List (Words .tldr)) (s : Sheet) :
    Reads lists (.going .opening s) (comments.flatMap commentYield)
      (.going .opening (renderComments comments s)) :=
  commentPart.reads (fun ws s _ => reads_comment ws s) (by rw [formsAll_commentPart]; trivial)

theorem HeadItem.reads (h : HeadItem) (s : Sheet) :
    Reads lists (.going .head s) h.yield (.going .head (h.render s)) := by
  cases h with
  | title ws =>
    have gimmeh (t : String) (ht : Keyword.ofWord? t = some .gimmeh) :
        step lists .head t s = .going .titleWord s := by
      have hne : t ≠ "" := fun he => by simp [he] at ht
      rw [step, gather_of_ne hne (by simp [ht]), if_pos ht]
    have title (t : String) (ht : Keyword.ofWord? t = some .title) :
        step lists .titleWord t s = .going (.titleText []) s := require_of_eq ht s _
    refine .word gimmeh (.word title ?_)
    exact reads_gathered (P := .titleText) (fun _ _ hne hk => gather_of_ne hne hk _ _ _)
      (fun _ ht => gather_of_eq ht _ _ _)
  | junk t noEnd noTitle =>
    refine .token (fun hne => ?_) (.nil _)
    rw [step, gather_of_ne hne noEnd, if_neg noTitle]
    rfl

theorem reads_headItems (items : List HeadItem) (s : Sheet) :
    Reads lists (.going .head s) (items.flatMap HeadItem.yield)
      (.going .head (renderHead (some items) s)) :=
  headPart.reads (fun h s _ => h.reads s) (by rw [formsAll_headPart]; trivial)

theorem reads_head (items : List HeadItem) (s : Sheet) :
    Reads lists (.going .opening s) (headYield (some items))
      (.going (.forms .body) (renderHead (some items) s)) := by
  have maek (t : String) (ht : Keyword.ofWord? t = some .maek) :
      step lists .opening t s = .going .headWord s := by rw [step, ht]
  have head (t : String) (ht : Keyword.ofWord? t = some .head) :
      step lists .headWord t s = .going .head s := require_of_eq ht s _
  have oic (t : String) (ht : Keyword.ofWord? t = some .oic) :
      step lists .head t (renderHead (some items) s) =
        .going (.forms .body) (renderHead (some items) s) := gather_of_eq ht _ _ _
  exact .word maek (.word head (.append (reads_headItems items s) (.word oic (.nil _))))

/-- Where neither a comment nor a head starts, the body does. -/
theorem Reads.opening {s : Sheet} {y : Symbol} {ys : List Symbol} {p : Progress}
    (hy : ∀ t, Spells t y → Keyword.ofWord? t ≠ some .obtw ∧ Keyword.ofWord? t ≠ some .maek)
    (h : Reads lists (.going (.forms .body) s) (y :: ys) p) :
    Reads lists (.going .opening s) (y :: ys) p := by
  intro u hu hs
  rw [← h u hu hs]
  cases hs with
  | @cons t _ v _ ht _ =>
    obtain ⟨hc, hm⟩ := hy t ht
    rw [feed_going_cons, feed_going_cons, step]
    split
    · exact absurd ‹_› hc
    · exact absurd ‹_› hm
    · rfl

theorem Form.yield_head (form : Form) : ∃ y ys, form.yield = y :: ys ∧
    ∀ t, Spells t y → Keyword.ofWord? t ≠ some .obtw ∧ Keyword.ofWord? t ≠ some .maek := by
  have word {k : Keyword} (ho : k ≠ .obtw) (hm : k ≠ .maek) (t : String)
      (ht : Spells t (.word k)) :
      Keyword.ofWord? t ≠ some .obtw ∧ Keyword.ofWord? t ≠ some .maek := by
    rw [show Keyword.ofWord? t = some k from ht]
    exact ⟨fun h => ho (Option.some.inj h), fun h => hm (Option.some.inj h)⟩
  cases form with
  | text w hw =>
    refine ⟨_, _, rfl, fun t ht => ?_⟩
    rw [show t = w from ht]
    exact ⟨ofWord?_ne_of_isText hw (by decide), ofWord?_ne_of_isText hw (by decide)⟩
  | styled _ _ => exact ⟨_, _, rfl, word (by decide) (by decide)⟩
  | newline => exact ⟨_, _, rfl, word (by decide) (by decide)⟩
  | media _ _ => exact ⟨_, _, rfl, word (by decide) (by decide)⟩
  | define _ _ => exact ⟨_, _, rfl, word (by decide) (by decide)⟩
  | use _ => exact ⟨_, _, rfl, word (by decide) (by decide)⟩

theorem reads_bodyEnd {body : List (BodyItem lists)} {s : Sheet}
    (hv : Ready (body.flatMap BodyItem.forms) s.values) :
    Reads lists (.going (.forms .body) s) (bodyYield body ++ [.word .kthxbye])
      (.finished ((renderBody body s).write Frame.body.tail)) :=
  .append (reads_body hv) (.word (fun _ ht => gather_of_eq ht _ _ _) (.nil _))

theorem reads_openBody {body : List (BodyItem lists)} {s : Sheet}
    (hb : ∀ b, body.head? = some b → b.isBlock = false)
    (hv : Ready (body.flatMap BodyItem.forms) s.values) :
    Reads lists (.going .opening s) (bodyYield body ++ [.word .kthxbye])
      (.finished ((renderBody body s).write Frame.body.tail)) := by
  have hr := reads_bodyEnd hv
  cases body with
  | nil =>
    refine .opening (fun t ht => ?_) hr
    rw [show Keyword.ofWord? t = some .kthxbye from ht]
    decide
  | cons b body =>
    cases b with
    | form f =>
      obtain ⟨y, ys, hy, hn⟩ := f.yield_head
      have he : bodyYield (.form f :: body) ++ [.word .kthxbye] =
          y :: (ys ++ bodyYield body ++ [.word .kthxbye]) := by
        show f.yield ++ bodyYield body ++ [.word .kthxbye] = _
        rw [hy]
        rfl
      rw [he] at hr ⊢
      exact .opening hn hr
    | paragraph fs => exact absurd (hb _ rfl) (by simp [BodyItem.isBlock])
    | list allowed items => exact absurd (hb _ rfl) (by simp [BodyItem.isBlock])

/-- The words of a document in which every variable is defined before it is used are read to the
end, and what is written and told is the document's page. -/
theorem Tree.reads (D : Tree lists) (hv : DefinedBeforeUse D.forms) :
    Reads lists .fresh D.yield (.finished D.render) := by
  have hd : Ready (D.body.flatMap BodyItem.forms)
      (renderHead D.head (renderComments D.comments .blank)).values := by
    rw [values_renderHead, values_renderComments]
    exact definedBeforeUse_iff.mp hv
  have hai (t : String) (ht : Keyword.ofWord? t = some .hai) :
      step lists .start t .blank = .going .opening .blank := require_of_eq ht .blank _
  refine .word hai (.append (reads_comments D.comments .blank) ?_)
  rw [Tree.render]
  cases hh : D.head with
  | none =>
    rw [hh] at hd
    exact reads_openBody (D.noBlock hh) hd
  | some items =>
    rw [hh] at hd
    exact .append (reads_head items _) (reads_bodyEnd hd)

end Shoutmark.Document
