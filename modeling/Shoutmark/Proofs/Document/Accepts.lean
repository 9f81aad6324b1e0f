import Shoutmark.Proofs.Document.Reads

/-! The programs that are accepted are documents. What is read to the end is split into the words
of a document and a rest that is not looked at, part by part as the places that it leads through
ask for them; so a program is accepted exactly when it starts with a document. -/

namespace Shoutmark.Document
open Shoutmark.Grammar Shoutmark.Reading

/-- The tokens lead to the end of a program. -/
def Finishes (lists : Bool) (p : Progress) (u : List String) : Prop :=
  ∃ s, feed lists p u = .finished s

/-- The tokens start with ones for the symbols, and the others lead to the end of a program. -/
def Splits (lists : Bool) (u : List String) (ys : List Symbol) (p : Progress) : Prop :=
  ∃ v w, u = v ++ w ∧ Spelling v ys ∧ Finishes lists p w

variable {lists : Bool}

theorem not_finishes_refused {f : Fault} {s : Sheet} {u : List String} :
    ¬ Finishes lists (.refused f s) u := by
  rintro ⟨e, h⟩
  rw [feed_refused] at h
  cases h

theorem Finishes.going {q : Place} {s : Sheet} {u : List String}
    (h : Finishes lists (.going q s) u) :
    ∃ t w, u = t :: w ∧ Finishes lists (step lists q t s) w := by
  cases u with
  | nil =>
    obtain ⟨e, h⟩ := h
    cases h
  | cons t w => exact ⟨t, w, rfl, h⟩

theorem Finishes.require {k : Keyword} {t : String} {s : Sheet} {p : Progress} {u : List String}
    (h : Finishes lists (require k t s p) u) :
    Keyword.ofWord? t = some k ∧ Finishes lists p u := by
  rw [Reading.require] at h
  split at h
  · exact ⟨‹_›, h⟩
  · exact absurd h not_finishes_refused

theorem Finishes.gather {k : Keyword} {t : String} {s : Sheet} {more next : Progress}
    {u : List String} (h : Finishes lists (gather k t s more next) u) :
    (Keyword.ofWord? t = some k ∧ Finishes lists next u) ∨
      (Keyword.ofWord? t ≠ some k ∧ Finishes lists more u) := by
  rw [Reading.gather] at h
  split at h
  · exact Or.inl h.require
  · rename_i hn
    exact Or.inr ⟨(not_or.mp hn).2, h⟩

theorem Splits.cons {t : String} {u : List String} {y : Symbol} {ys : List Symbol} {p : Progress}
    (ht : Spells t y) (h : Splits lists u ys p) : Splits lists (t :: u) (y :: ys) p := by
  obtain ⟨v, w, rfl, hv, hw⟩ := h
  exact ⟨t :: v, w, rfl, .cons ht hv, hw⟩

theorem Splits.after {v w : List String} {xs ys : List Symbol} {p : Progress}
    (hv : Spelling v xs) (h : Splits lists w ys p) : Splits lists (v ++ w) (xs ++ ys) p := by
  obtain ⟨v', w', rfl, hv', hw'⟩ := h
  exact ⟨v ++ v', w', (List.append_assoc v v' w').symm, List.rel_append hv hv', hw'⟩

theorem Finishes.splits {p : Progress} {u : List String} (h : Finishes lists p u) :
    Splits lists u [] p :=
  ⟨[], u, rfl, .nil, h⟩

theorem length_lt_of_spelling {v w : List String} {ys : List Symbol} (hv : Spelling v ys)
    (hy : ys ≠ []) : w.length < (v ++ w).length := by
  have hl := hv.length_eq
  have hp := List.length_pos_iff.mpr hy
  rw [List.length_append]
  omega

theorem Finishes.word {q : Place} {s s' : Sheet} {k : Keyword} {p : Progress} {u : List String}
    (hq : ∀ t, step lists q t s = Reading.require k t s' p) (h : Finishes lists (.going q s) u) :
    ∃ t w, u = t :: w ∧ Keyword.ofWord? t = some k ∧ Finishes lists p w := by
  obtain ⟨t, w, rfl, hw⟩ := h.going
  rw [hq] at hw
  exact ⟨t, w, rfl, hw.require⟩

theorem Finishes.gathered {P : List String → Place} {s : Sheet} {k : Keyword}
    {tail : List String → Sheet} {next : List String → Progress}
    (hq : ∀ ws t, step lists (P ws) t s =
      Reading.gather k t (tail ws) (.going (P (ws ++ [t])) s) (next ws))
    {gathered u : List String} (h : Finishes lists (.going (P gathered) s) u) :
    ∃ ws : Words k, Splits lists u (ws.yield ++ [.word k]) (next (gathered ++ ws.val)) := by
  induction u generalizing gathered with
  | nil =>
    obtain ⟨e, h⟩ := h
    cases h
  | cons t u ih =>
    have ht : Finishes lists (step lists (P gathered) t s) u := h
    rw [hq] at ht
    rcases ht.gather with ⟨hk, hn⟩ | ⟨hk, hm⟩
    · refine ⟨⟨[], fun _ hw => nomatch hw⟩, .cons hk ?_⟩
      show Splits lists u [] (next (gathered ++ []))
      rw [List.append_nil]
      exact hn.splits
    · obtain ⟨ws, hs⟩ := ih hm
      have hall : ∀ w ∈ t :: ws.val, Keyword.ofWord? w ≠ some k := by
        intro w hw
        rcases List.mem_cons.mp hw with rfl | hw
        · exact hk
        · exact ws.property w hw
      rw [List.append_assoc] at hs
      exact ⟨⟨t :: ws.val, hall⟩, .cons rfl hs⟩

/-! ### Forms -/

theorem styled_splits (f : Frame) (style : Style) {s : Sheet} {u : List String}
    (h : Finishes lists (.going (.styled f style []) (s.write ("<" ++ style.tag ++ ">"))) u) :
    ∃ ws : Words .mkay, Splits lists u (ws.yield ++ [.word .mkay])
      (.going (.forms f) ((Form.styled style ws).render s)) :=
  h.gathered (P := .styled f style) (fun _ _ => rfl)

theorem media_splits (f : Frame) (m : Medium) {s : Sheet} {u : List String}
    (h : Finishes lists (.going (.address f m) s) u) :
    ∃ a, Splits lists u [.token a, .word .mkay]
      (.going (.forms f) ((Form.media m a).render s)) := by
  obtain ⟨a, u, rfl, ha⟩ := h.going
  obtain ⟨t, u, rfl, ht, hw⟩ := Finishes.word (q := .addressEnd f m a) (fun _ => rfl) ha
  exact ⟨a, .cons rfl (.cons ht hw.splits)⟩

theorem construct_splits (f : Frame) {s : Sheet} {u : List String}
    (h : Finishes lists (.going (.construct f) s) u) :
    ∃ (form : Form) (ys : List Symbol), form.yield = .word .gimmeh :: ys ∧ form.Has s.values ∧
      Splits lists u ys (.going (.forms f) (form.render s)) := by
  obtain ⟨t, u, rfl, ht⟩ := h.going
  rw [step, stepConstruct] at ht
  split at ht
  · obtain ⟨ws, hs⟩ := styled_splits f .bold ht
    exact ⟨.styled .bold ws, _, rfl, trivial, .cons ‹_› hs⟩
  · obtain ⟨ws, hs⟩ := styled_splits f .italics ht
    exact ⟨.styled .italics ws, _, rfl, trivial, .cons ‹_› hs⟩
  · exact ⟨.newline, _, rfl, trivial, .cons ‹_› ht.splits⟩
  · obtain ⟨a, hs⟩ := media_splits f .audio ht
    exact ⟨.media .audio a, _, rfl, trivial, .cons ‹_› hs⟩
  · obtain ⟨a, hs⟩ := media_splits f .video ht
    exact ⟨.media .video a, _, rfl, trivial, .cons ‹_› hs⟩
  · exact absurd ht not_finishes_refused

theorem use_splits (f : Frame) {s : Sheet} {u : List String}
    (h : Finishes lists (.going (.see f) s) u) :
    ∃ n, (Form.use n).Has s.values ∧ Splits lists u [.word .see, .token n, .word .mkay]
      (.going (.forms f) ((Form.use n).render s)) := by
  obtain ⟨t, u, rfl, hsee, h₁⟩ := Finishes.word (q := .see f) (fun _ => rfl) h
  obtain ⟨n, u, rfl, h₂⟩ := h₁.going
  obtain ⟨t', u, rfl, hmkay, h₃⟩ := Finishes.word (q := .useEnd f n) (fun _ => rfl) h₂
  rw [useValue] at h₃
  split at h₃
  · rename_i value hv
    have hr : (Form.use n).render s = s.write (value ++ " ") := by rw [Form.render, hv]
    refine ⟨n, by rw [Form.Has, hv]; rfl, .cons hsee (.cons rfl (.cons hmkay ?_))⟩
    rw [hr]
    exact h₃.splits
  · exact absurd h₃ not_finishes_refused

theorem define_splits (f : Frame) {s : Sheet} {u : List String}
    (h : Finishes lists (.going (.haz f) s) u) :
    ∃ n ws, Splits lists u
      (.word .haz :: .token n :: .word .it :: .word .iz :: (ws.yield ++ [.word .mkay]))
      (.going (.forms f) ((Form.define n ws).render s)) := by
  obtain ⟨t, u, rfl, hhaz, h₁⟩ := Finishes.word (q := .haz f) (fun _ => rfl) h
  obtain ⟨n, u, rfl, h₂⟩ := h₁.going
  obtain ⟨t', u, rfl, hit, h₃⟩ := Finishes.word (q := .it f n) (fun _ => rfl) h₂
  obtain ⟨t'', u, rfl, hiz, h₄⟩ := Finishes.word (q := .iz f n) (fun _ => rfl) h₃
  obtain ⟨ws, hs⟩ := h₄.gathered (P := .value f n) (fun _ _ => rfl)
  exact ⟨n, ws, .cons hhaz (.cons rfl (.cons hit (.cons hiz hs)))⟩

theorem form_splits (f : Frame) {t : String} {s : Sheet} {u : List String}
    (h : Finishes lists (stepForm f t s) u) :
    ∃ form : Form, form.Has s.values ∧
      Splits lists (t :: u) form.yield (.going (.forms f) (form.render s)) := by
  rw [stepForm] at h
  split at h
  · obtain ⟨form, ys, hy, hv, hs⟩ := construct_splits f h
    refine ⟨form, hv, ?_⟩
    rw [hy]
    exact .cons ‹_› hs
  · obtain ⟨n, hv, hs⟩ := use_splits f h
    exact ⟨.use n, hv, .cons ‹_› hs⟩
  · obtain ⟨n, ws, hs⟩ := define_splits f h
    exact ⟨.define n ws, trivial, .cons ‹_› hs⟩
  · split at h
    · exact ⟨.text t ‹_›, trivial, .cons rfl h.splits⟩
    · exact absurd h not_finishes_refused

/-! ### Parts in a row -/

/-- Where each reading either stops or goes through a part and is back at the place, it goes through
some parts and stops. -/
theorem Part.splits {α : Type} (P : Part α) {q : Place} {Stop : Sheet → List String → Prop}
    (once : ∀ {s u}, Finishes lists (.going q s) u →
      Stop s u ∨ ∃ x, Ready (P.forms x) s.values ∧
        Splits lists u (P.yield x) (.going q (P.render x s)))
    {s : Sheet} {u : List String} (h : Finishes lists (.going q s) u) :
    ∃ xs v w, u = v ++ w ∧ Spelling v (P.yieldAll xs) ∧ Ready (P.formsAll xs) s.values ∧
      Stop (P.renderAll xs s) w := by
  -- a part has at least one word, so what is left after it is shorter
  induction hn : u.length using Nat.strongRecOn generalizing u s with
  | _ n ih =>
    rcases once h with hstop | ⟨x, hx, v, w, rfl, hsp, hw⟩
    · exact ⟨[], [], u, rfl, .nil, ready_nil _, hstop⟩
    · have hlt : w.length < n := hn ▸ length_lt_of_spelling hsp (P.yield_ne_nil x)
      obtain ⟨xs, v', w', rfl, hsp', hxs, hstop⟩ := ih w.length hlt hw rfl
      exact ⟨x :: xs, v ++ v', w', (List.append_assoc v v' w').symm, List.rel_append hsp hsp',
        P.ready_formsAll_cons.mpr ⟨hx, hxs⟩, hstop⟩

theorem frame_splits {f : Frame} (hf : f ≠ .body) {s : Sheet} {u : List String}
    (h : Finishes lists (.going (.forms f) s) u) :
    ∃ fs, Ready fs s.values ∧ Splits lists u (formsYield fs ++ [.word f.closing])
      (f.leave ((renderForms fs s).write f.tail)) := by
  have once {s : Sheet} {u : List String} (h : Finishes lists (.going (.forms f) s) u) :
      Splits lists u [.word f.closing] (f.leave (s.write f.tail)) ∨
        ∃ form, Ready [form] s.values ∧
          Splits lists u form.yield (.going (.forms f) (form.render s)) := by
    obtain ⟨t, u, rfl, hu⟩ := h.going
    rcases Finishes.gather hu with ⟨ht, hend⟩ | ⟨-, hmore⟩
    · exact Or.inl (.cons ht hend.splits)
    · rw [if_neg fun hb => hf hb.1] at hmore
      obtain ⟨form, hv, hs⟩ := form_splits f hmore
      exact Or.inr ⟨form, ⟨hv, ready_nil _⟩, hs⟩
  obtain ⟨fs, v, w, rfl, hsp, hr, hend⟩ := formPart.splits once h
  rw [formsAll_formPart] at hr
  exact ⟨fs, hr, .after hsp hend⟩

/-! ### Blocks and the body -/

theorem items_splits {s : Sheet} {u : List String} (h : Finishes lists (.going .items s) u) :
    ∃ items, Ready items.flatten s.values ∧
      Splits lists u (items.flatMap itemYield ++ [.word .oic])
        (.going (.forms .body) ((renderItems items s).write "</ul>\n")) := by
  have once {s : Sheet} {u : List String} (h : Finishes lists (.going .items s) u) :
      Splits lists u [.word .oic] (.going (.forms .body) (s.write "</ul>\n")) ∨
        ∃ fs, Ready fs s.values ∧
          Splits lists u (itemYield fs) (.going .items (renderItem fs s)) := by
    obtain ⟨t, u, rfl, hu⟩ := h.going
    rw [step] at hu
    split at hu
    · obtain ⟨t', u, rfl, hitem, hfs⟩ := Finishes.word (q := .itemWord) (fun _ => rfl) hu
      obtain ⟨fs, hv, hs⟩ := frame_splits (f := .item) (by decide) hfs
      exact Or.inr ⟨fs, hv, .cons ‹_› (.cons hitem hs)⟩
    · obtain ⟨ht, hend⟩ := hu.require
      exact Or.inl (.cons ht hend.splits)
  obtain ⟨items, v, w, rfl, hsp, hr, hend⟩ := itemPart.splits once h
  rw [formsAll_itemPart] at hr
  exact ⟨items, hr, .after hsp hend⟩

theorem block_splits {s : Sheet} {u : List String} (h : Finishes lists (.going .block s) u) :
    ∃ (b : BodyItem lists) (ys : List Symbol), b.yield = .word .maek :: ys ∧
      Ready b.forms s.values ∧ Splits lists u ys (.going (.forms .body) (b.render s)) := by
  obtain ⟨t, u, rfl, hu⟩ := h.going
  rw [step] at hu
  split at hu
  · rename_i ht
    obtain ⟨items, hv, hs⟩ := items_splits hu
    exact ⟨.list ht.1 items, _, rfl, hv, .cons ht.2 hs⟩
  · obtain ⟨ht, hfs⟩ := hu.require
    obtain ⟨fs, hv, hs⟩ := frame_splits (f := .paragraph) (by decide) hfs
    exact ⟨.paragraph fs, _, rfl, hv, .cons ht hs⟩

theorem body_splits {s : Sheet} {u : List String} (h : Finishes lists (.going (.forms .body) s) u) :
    ∃ body : List (BodyItem lists), Ready (body.flatMap BodyItem.forms) s.values ∧
      Splits lists u (bodyYield body ++ [.word .kthxbye])
        (.finished ((renderBody body s).write Frame.body.tail)) := by
  have once {s : Sheet} {u : List String} (h : Finishes lists (.going (.forms .body) s) u) :
      Splits lists u [.word .kthxbye] (.finished (s.write Frame.body.tail)) ∨
        ∃ b : BodyItem lists, Ready b.forms s.values ∧
          Splits lists u b.yield (.going (.forms .body) (b.render s)) := by
    obtain ⟨t, u, rfl, hu⟩ := h.going
    rcases Finishes.gather hu with ⟨ht, hend⟩ | ⟨-, hmore⟩
    · exact Or.inl (.cons ht hend.splits)
    · split at hmore
      · rename_i hm
        obtain ⟨b, ys, hy, hv, hs⟩ := block_splits hmore
        refine Or.inr ⟨b, hv, ?_⟩
        rw [hy]
        exact .cons hm.2 hs
      · obtain ⟨form, hv, hs⟩ := form_splits .body hmore
        exact Or.inr ⟨.form form, ⟨hv, ready_nil _⟩, hs⟩
  obtain ⟨body, v, w, rfl, hsp, hr, hend⟩ := bodyPart.splits once h
  exact ⟨body, hr, .after hsp hend⟩

/-! ### The head and the comments -/

theorem headItems_splits {s : Sheet} {u : List String} (h : Finishes lists (.going .head s) u) :
    ∃ items : List HeadItem, Splits lists u (items.flatMap HeadItem.yield ++ [.word .oic])
      (.going (.forms .body) (renderHead (some items) s)) := by
  have once {s : Sheet} {u : List String} (h : Finishes lists (.going .head s) u) :
      Splits lists u [.word .oic] (.going (.forms .body) s) ∨
        ∃ i : HeadItem, Ready [] s.values ∧ Splits lists u i.yield (.going .head (i.render s)) := by
    obtain ⟨t, u, rfl, hu⟩ := h.going
    rcases Finishes.gather hu with ⟨ht, hend⟩ | ⟨ht, hmore⟩
    · exact Or.inl (.cons ht hend.splits)
    · split at hmore
      · obtain ⟨t', u, rfl, htitle, hws⟩ := Finishes.word (q := .titleWord) (fun _ => rfl) hmore
        obtain ⟨ws, hs⟩ := hws.gathered (P := .titleText) (fun _ _ => rfl)
        exact Or.inr ⟨.title ws, ready_nil _, .cons ‹_› (.cons htitle hs)⟩
      · exact Or.inr ⟨.junk t ht ‹_›, ready_nil _, .cons rfl hmore.splits⟩
  obtain ⟨items, v, w, rfl, hsp, -, hend⟩ := headPart.splits once h
  exact ⟨items, .after hsp hend⟩

/-- A body that starts with no block opener starts with no block. -/
theorem not_isBlock_of_spelling {body : List (BodyItem lists)} {t : String} {v : List String}
    {ys : List Symbol} (hm : Keyword.ofWord? t ≠ some .maek)
    (h : Spelling (t :: v) (bodyYield body ++ ys)) :
    ∀ b, body.head? = some b → b.isBlock = false := by
  intro b hb
  obtain ⟨body, rfl⟩ := List.head?_eq_some_iff.mp hb
  cases b with
  | form f => rfl
  | paragraph fs =>
    cases h with
    | cons ht _ => exact absurd ht hm
  | list _ items =>
    cases h with
    | cons ht _ => exact absurd ht hm

theorem main_splits {t : String} {s : Sheet} {u : List String}
    (ht : Keyword.ofWord? t ≠ some .obtw) (h : Finishes lists (.going .opening s) (t :: u)) :
    ∃ (head : Option (List HeadItem)) (body : List (BodyItem lists)),
      (head = none → ∀ b, body.head? = some b → b.isBlock = false) ∧
      Ready (body.flatMap BodyItem.forms) s.values ∧
      Splits lists (t :: u) (headYield head ++ (bodyYield body ++ [.word .kthxbye]))
        (.finished ((renderBody body (renderHead head s)).write Frame.body.tail)) := by
  have hu : Finishes lists (step lists .opening t s) u := h
  rw [step] at hu
  split at hu
  · exact absurd ‹_› ht
  · rename_i hmaek
    obtain ⟨t', u, rfl, hhead, hi⟩ := Finishes.word (q := .headWord) (fun _ => rfl) hu
    obtain ⟨items, v, w, rfl, hsp, hw⟩ := headItems_splits hi
    obtain ⟨body, hr, hs⟩ := body_splits hw
    rw [values_renderHead] at hr
    have hh : Spelling (t :: t' :: v) (headYield (some items)) := .cons hmaek (.cons hhead hsp)
    exact ⟨some items, body, by simp, hr, .after hh hs⟩
  · rename_i hmaek
    obtain ⟨body, hr, v, w, he, hsp, hw⟩ :=
      body_splits (s := s) (u := t :: u) hu
    cases v with
    | nil => exact absurd (List.forall₂_nil_left_iff.mp hsp) (by simp)
    | cons t' v =>
      cases he
      exact ⟨none, body, fun _ => not_isBlock_of_spelling hmaek hsp, hr, t :: v, w, rfl, hsp, hw⟩

theorem opening_splits {s : Sheet} {u : List String} (h : Finishes lists (.going .opening s) u) :
    ∃ (comments : List (Words .tldr)) (t : String) (v w : List String), u = v ++ t :: w ∧
      Spelling v (comments.flatMap commentYield) ∧ Keyword.ofWord? t ≠ some .obtw ∧
      Finishes lists (.going .opening (renderComments comments s)) (t :: w) := by
  have once {s : Sheet} {u : List String} (h : Finishes lists (.going .opening s) u) :
      (∃ t w, u = t :: w ∧ Keyword.ofWord? t ≠ some .obtw ∧
        Finishes lists (.going .opening s) (t :: w)) ∨
      ∃ ws : Words .tldr, Ready [] s.values ∧ Splits lists u (commentYield ws)
        (.going .opening (s.tell (.diagnostic (.comment (phraseOf ws.val))))) := by
    obtain ⟨t, u, rfl, hu⟩ := h.going
    by_cases ht : Keyword.ofWord? t = some .obtw
    · rw [step, ht] at hu
      obtain ⟨ws, hs⟩ := hu.gathered (P := .comment) (fun _ _ => rfl)
      exact Or.inr ⟨ws, ready_nil _, .cons ht hs⟩
    · exact Or.inl ⟨t, u, rfl, ht, h⟩
  obtain ⟨comments, v, w, rfl, hsp, -, t, w', rfl, ht, hend⟩ := commentPart.splits once h
  exact ⟨comments, t, v, w', rfl, hsp, ht, hend⟩

/-- What is read to its end starts with a document. -/
theorem tree_of_finishes {T : List String} (h : Finishes lists .fresh T) :
    ∃ (D : Tree lists) (u rest : List String), T = u ++ rest ∧ Spelling u D.yield ∧
      DefinedBeforeUse D.forms := by
  obtain ⟨t, u, rfl, hhai, hu⟩ := Finishes.word (q := .start) (fun _ => rfl) h
  obtain ⟨comments, t', v, w, rfl, hc, ht', hw⟩ := opening_splits hu
  obtain ⟨head, body, hb, hr, v', w', he, hsp, -⟩ := main_splits ht' hw
  rw [values_renderComments] at hr
  refine ⟨⟨comments, head, body, hb⟩, t :: (v ++ v'), w', ?_,
    .cons hhai (List.rel_append hc hsp), definedBeforeUse_iff.mpr hr⟩
  rw [he, List.cons_append, List.append_assoc]

/-- The words of a document, and any tokens after them, make a program that is accepted and whose
page is the document's. -/
theorem program_of_tree (D : Tree lists) {u : List String} (rest : List String)
    (hu : ∀ t ∈ u, t ≠ "") (hsp : Spelling u D.yield)
    (hd : DefinedBeforeUse D.forms) :
    ∃ d, program lists (.start (u ++ rest)) = .ok () d ∧ d.sheet = D.render := by
  have hf : feed lists .fresh (u ++ rest) = .finished D.render := by
    rw [feed_append, D.reads hd u hu hsp, feed_finished]
  obtain ⟨c, hp⟩ := program_finished hf
  exact ⟨_, hp, Draft.sheet_draft c D.render⟩

/-- Reading and writing in one pass is reading a document and then rendering it: a program is
accepted exactly if its tokens start with the words of a document in which every variable is
defined before it is used, and then what was written and told is the document's page. -/
theorem accepts_iff_document (lists : Bool) {T : List String} (hT : ∀ t ∈ T, t ≠ "") :
    ((∃ d, program lists (.start T) = .ok () d) ↔
      ∃ (D : Tree lists) (u rest : List String), T = u ++ rest ∧ Spelling u D.yield ∧
        DefinedBeforeUse D.forms) ∧
    ∀ (D : Tree lists) (u rest : List String) (d : Draft), T = u ++ rest → Spelling u D.yield →
      DefinedBeforeUse D.forms → program lists (.start T) = .ok () d → d.sheet = D.render := by
  constructor
  · constructor
    · rintro ⟨d, hp⟩
      exact tree_of_finishes ⟨d.sheet, feed_of_ok hp⟩
    · rintro ⟨D, u, rest, rfl, hsp, hd⟩
      have hu : ∀ t ∈ u, t ≠ "" := fun t ht => hT t (List.mem_append_left rest ht)
      obtain ⟨d, hp, -⟩ := program_of_tree D rest hu hsp hd
      exact ⟨d, hp⟩
  · rintro D u rest d rfl hsp hd hp
    have hu : ∀ t ∈ u, t ≠ "" := fun t ht => hT t (List.mem_append_left rest ht)
    obtain ⟨d', hp', hs⟩ := program_of_tree D rest hu hsp hd
    rw [hp] at hp'
    cases hp'
    exact hs

/-- A comment, a head with a token that no one asks for, a variable, and a list that uses it. -/
def newsTree : Tree true where
  comments := [⟨["#GIMMEH"], by decide⟩]
  head := some [.title ⟨["Big", "News"], by decide⟩, .junk "#KTHXBYE" (by decide) (by decide)]
  body := [.form (.define "#mkay" ⟨["a", "b"], by decide⟩),
    .list rfl [[.use "#mkay", .text "!" (by decide)]]]
  noBlock := by simp

def newsTokens : List String :=
  ["#hai", "#OBTW", "#GIMMEH", "#tldr",
    "#maek", "Head", "#GIMMEH", "title", "Big", "News", "#MKAY", "#KTHXBYE", "#OIC",
    "#i", "Haz", "#mkay", "#IT", "IZ", "a", "b", "#MKAY",
    "#MAEK", "List", "#GIMMEH", "ITEM", "#LEMME", "SEE", "#mkay", "#MKAY", "!", "#MKAY", "#OIC",
    "#KTHXBYE"]

/-- The news are accepted with a word after them that is not valid. -/
theorem accepts_iff_document_news :
    ∃ d, program true (.start (newsTokens ++ ["#nope"])) = .ok () d ∧
      d.page = "<html><head><title>Big News</title></head><body>\n<ul>\n<li>a b !</li>\n</ul>\n" ++
        "</body></html>" := by
  have hT : ∀ t ∈ newsTokens ++ ["#nope"], t ≠ "" := by decide
  have hsp : Spelling newsTokens newsTree.yield := by
    rw [newsTokens]
    repeat' first | exact .nil | refine .cons (by decide) ?_
  have hd : DefinedBeforeUse newsTree.forms := by decide +kernel
  obtain ⟨haccepts, hrender⟩ := accepts_iff_document true hT
  obtain ⟨d, hp⟩ := haccepts.mpr ⟨newsTree, newsTokens, ["#nope"], rfl, hsp, hd⟩
  have hs : d.sheet = newsTree.render := hrender newsTree newsTokens ["#nope"] d rfl hsp hd hp
  have hh : d.html = newsTree.render.html := congrArg Sheet.html hs
  refine ⟨d, hp, ?_⟩
  rw [Draft.page, hh]
  decide +kernel

end Shoutmark.Document
