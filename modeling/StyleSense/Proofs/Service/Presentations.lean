/-
# Colors in place of those last shown

The notations offered for a color depend on the swatches that were answered
last for the document, and on no others: an answer is forgotten when the
document is opened anew, changed or closed, even if the change is refused, and
stays when a later request for swatches has no answer.
-/

import StyleSense.Proofs.Color.Presentation
import StyleSense.Proofs.Service.Interference

namespace StyleSense.Service

open StyleSense.Text StyleSense.Assist

/-- Whether a request opens, changes or closes a document. -/
def Request.outdates (uri : String) : Request → Bool
  | .openDocument name .. | .change name .. | .close name => name = uri
  | _ => false

/-- The answer with the swatches of a document that came last since it was
opened, changed or closed. -/
def lastShown? (uri : String) (past : List Exchange) : Option (List Swatch) :=
  (past.takeWhile fun e => !e.request.outdates uri).findSome? (Exchange.swatches? uri)

/-- The swatches of a document that were shown last. -/
def lastShown (uri : String) (past : List Exchange) : List Swatch :=
  (lastShown? uri past).getD []

variable {s : Session} {uri : String} {past : List Exchange} {e : Exchange}

theorem lastShown?_cons_of_outdates (h : e.request.outdates uri = true) :
    lastShown? uri (e :: past) = none := by
  rw [lastShown?, List.takeWhile_cons_of_neg (by rw [h]; exact Bool.false_ne_true)]
  rfl

theorem lastShown?_cons (h : e.request.outdates uri = false) :
    lastShown? uri (e :: past) = (e.swatches? uri).or (lastShown? uri past) := by
  rw [lastShown?, List.takeWhile_cons_of_pos (by rw [h]; rfl), List.findSome?_cons]
  cases e.swatches? uri <;> rfl

/-- Opening, changing or closing a document leaves no swatches of it. A change
that is refused finds none. -/
theorem swatches?_reply_of_outdates (h : Coherent past s.cache) (programs : Programs)
    {request : Request} (houtdates : request.outdates uri = true) :
    (s.reply programs request).2.cache.swatches? uri = none := by
  cases request with
  | ping | shutdown | configure | hover | complete | colors | colorPresentation =>
      cases houtdates
  | openDocument name languageId version text ast =>
      obtain rfl : name = uri := of_decide_eq_true houtdates
      exact (openDocument_spec h.valid name languageId version text ast).2.2.2.2.1
  | change name version text ast =>
      obtain rfl : name = uri := of_decide_eq_true houtdates
      rw [Session.reply, Session.changeDocument]
      cases hopen : s.cache.document? name with
      | none => exact ((h.accounted name).closed hopen).2
      | some previous =>
          exact (openDocument_spec h.valid name previous.languageId version text ast).2.2.2.2.1
  | close name =>
      obtain rfl : name = uri := of_decide_eq_true houtdates
      exact Cache.swatches?_close_self h.valid name

/-- An analysis leaves all swatches as they are. -/
theorem swatches?_analyse {α : Type} (hs : s.cache.Valid) (programs : Programs) (enabled : Bool)
    (name : String) (analysis : Document → Node → Except Failure (Option α)) (uri : String) :
    (s.analyse programs enabled name analysis).2.cache.swatches? uri = s.cache.swatches? uri := by
  rw [Cache.swatches?, (analyse_spec hs programs enabled name analysis).1.swatches]
  rfl

/-- A request for swatches replaces those of its document if it is answered with
some, and only then. -/
theorem swatches?_reply_colors (hs : s.cache.Valid) (programs : Programs) (name uri : String) :
    (s.reply programs (.colors name)).2.cache.swatches? uri =
      ((Exchange.mk s programs (.colors name)
        (s.reply programs (.colors name)).1).swatches? uri).or (s.cache.swatches? uri) := by
  have hsame := swatches?_analyse hs programs s.settings.colorDecorators name
    (fun document tree => Assist.swatches? document tree s.tracker .never) uri
  obtain ⟨-, hanalysed⟩ := analyse_spec hs programs s.settings.colorDecorators name
    fun document tree => Assist.swatches? document tree s.tracker .never
  rw [Session.reply, Session.documentColors]
  rcases hanswer : s.analyse programs s.settings.colorDecorators name
    (fun document tree => Assist.swatches? document tree s.tracker .never) with
    ⟨fault | - | swatches, next⟩
  all_goals rw [hanswer] at hsame
  · exact hsame
  · change next.cache.swatches? uri =
      (if name = uri then none else none : Option (List Swatch)).or (s.cache.swatches? uri)
    rw [ite_self]
    exact hsame
  · rw [hanswer] at hanalysed
    obtain ⟨document, tree, -, hswatches⟩ := hanalysed swatches rfl
    change (next.cache.storeSwatches name swatches).swatches? uri =
      (if name = uri then some swatches else none).or (s.cache.swatches? uri)
    by_cases huri : name = uri
    · subst huri
      rw [if_pos rfl, Cache.swatches?_storeSwatches_self,
        List.mergeSort_of_pairwise (pairwise_swatches? hswatches)]
      rfl
    · rw [if_neg huri, Cache.swatches?_storeSwatches_of_ne (Ne.symm huri)]
      exact hsame

theorem swatches?_reply (hs : s.cache.Valid) (programs : Programs) {request : Request}
    (houtdates : request.outdates uri = false) :
    (s.reply programs request).2.cache.swatches? uri =
      ((Exchange.mk s programs request (s.reply programs request).1).swatches? uri).or
        (s.cache.swatches? uri) := by
  cases request with
  | ping | shutdown | colorPresentation => rfl
  | configure settings =>
      rw [Session.reply, Session.configure]
      cases parserOf settings <;> rfl
  | openDocument name languageId version text ast =>
      exact (Shadows.openDocument_of_ne hs (Ne.symm (of_decide_eq_false houtdates)) languageId
        version text ast).swatches
  | change name version text ast =>
      have hconcerns : (Request.change name version text ast).concerns uri = false := houtdates
      exact (Shadows.reply_of_not_concerns hs hconcerns programs).swatches
  | close name =>
      exact Cache.swatches?_close_of_ne (Ne.symm (of_decide_eq_false houtdates)) s.cache
  | hover name position =>
      exact swatches?_analyse hs programs s.settings.hover name _ uri
  | complete name position =>
      exact swatches?_analyse hs programs s.settings.suggestions name _ uri
  | colors name => exact swatches?_reply_colors hs programs name uri

/-- What is kept of a run is what was shown last, and it is in order. -/
theorem swatches?_after (settings : Settings) (parser : Option ParserCommand)
    (turns : List Turn) (uri : String) :
    let run := (Run.start settings parser).after turns
    run.session.cache.swatches? uri = lastShown? uri run.past ∧
      Swatch.Sorted (lastShown uri run.past) := by
  have hrun := Run.after_induction (r := Run.start settings parser)
    (P := fun r => Coherent r.past r.session.cache ∧
      r.session.cache.swatches? uri = lastShown? uri r.past) ⟨coherent_empty, rfl⟩
    (fun r turn ⟨hcoherent, hkept⟩ => by
      refine ⟨hcoherent.reply turn.programs turn.request, ?_⟩
      cases houtdates : turn.request.outdates uri with
      | true =>
          exact (swatches?_reply_of_outdates hcoherent turn.programs houtdates).trans
            (lastShown?_cons_of_outdates houtdates).symm
      | false =>
          refine Eq.trans ?_ (lastShown?_cons houtdates).symm
          rw [← hkept]
          exact swatches?_reply hcoherent.valid turn.programs houtdates) turns
  intro run
  obtain ⟨hcoherent, hkept⟩ := hrun
  refine ⟨hkept, ?_⟩
  rw [lastShown, ← hkept]
  rcases hswatches : run.session.cache.swatches? uri with - | swatches
  · exact List.Pairwise.nil
  · exact ((hcoherent.accounted uri).swatches swatches hswatches).2.1

/-- After any requests to a fresh session, a color is offered in place of a
range first as digits. Those of an opaque color are seven characters if each of
the swatches that start there, among those shown last, is plain, and in
particular if none starts there. If some do and none of them is plain, the
digits end in `ff`. Those of any other color are nine characters. -/
theorem hex_colorPresentation (settings : Settings) (parser : Option ParserCommand)
    (turns : List Turn) (programs : Programs) (uri : String) (range : Range) (color : Color) :
    let run := (Run.start settings parser).after turns
    let edited := (lastShown uri run.past).filter fun swatch => swatch.range.start = range.start
    ∃ hex rest,
      (run.session.reply programs (.colorPresentation uri range color)).1 =
        .ok (.presentations (hex :: rest)) ∧
      (color.alpha = 1 → (∀ swatch ∈ edited, swatch.isPlain = true) →
        hex = color.hexOpaque ∧ hex.length = 7) ∧
      (color.alpha = 1 → edited ≠ [] → (∀ swatch ∈ edited, swatch.isPlain = false) →
        hex = color.hexOpaque ++ "ff" ∧ hex.length = 9) ∧
      (color.alpha ≠ 1 → hex = color.hexFull ∧ hex.length = 9) := by
  intro run edited
  obtain ⟨hkept, hsorted⟩ := swatches?_after settings parser turns uri
  obtain ⟨hex, rest, hlabels, hplain, hclear, hother⟩ :=
    Swatch.hex_presentations hsorted range color
  have hedited : ∀ swatch, swatch ∈ edited ↔
      swatch ∈ lastShown uri run.past ∧ swatch.range.start = range.start := fun swatch =>
    List.mem_filter.trans (and_congr_right fun _ => decide_eq_true_iff)
  refine ⟨hex, rest, ?_, fun hopaque hall => ?_, fun hopaque hsome hall => ?_, fun hne => ?_⟩
  · rw [Session.reply, Session.colorPresentation, hkept]
    exact congrArg (fun labels => Except.ok (Reply.presentations labels)) hlabels
  · obtain rfl := hplain hopaque fun swatch hmem hstart =>
      hall swatch ((hedited swatch).2 ⟨hmem, hstart⟩)
    exact ⟨rfl, color.length_hexOpaque⟩
  · obtain ⟨swatch, hmem⟩ := List.exists_mem_of_ne_nil _ hsome
    obtain rfl := hclear hopaque ⟨swatch, (hedited swatch).1 hmem⟩ fun swatch hmem hstart =>
      hall swatch ((hedited swatch).2 ⟨hmem, hstart⟩)
    refine ⟨rfl, ?_⟩
    rw [← Color.hexFull_of_opaque hopaque]
    exact color.length_hexFull
  · obtain rfl := hother hne
    exact ⟨rfl, color.length_hexFull⟩

/-- The serialized form of a node. -/
def serialized (type : String) (start stop : Int) (fields : List (String × Json)) : Json :=
  let span := Json.object [("start", .number (.integer start)), ("end", .number (.integer stop))]
  .object ([("type", .string type), ("span", span)] ++ fields)

/-- The tree of a call whose only color is `value`, as wide as its text. -/
def createColor (value : String) (stop : Int) : Json :=
  let name (text : String) (start stop : Int) :=
    serialized "Identifier" start stop [("value", .string text)]
  let color := .object [("type", .string "KeyValueProperty"), ("key", name "color" 16 21),
    ("value", serialized "StringLiteral" 22 (stop - 2) [("value", .string value)])]
  let callee := serialized "MemberExpression" 1 14
    [("object", name "stylex" 1 7), ("property", name "create" 8 14)]
  serialized "CallExpression" 1 stop [("callee", callee), ("arguments",
    .array [.object [("expression", serialized "ObjectExpression" 15 (stop - 1)
      [("properties", .array [color])])]])]

/-- White in place of a blue that is half transparent keeps its digits of
opacity, and leaves them out where no swatch starts. Once the document is
closed, it leaves them out everywhere. -/
theorem hex_colorPresentation_white :
    let programs : Programs := fun _ _ => none
    let asked : List Turn := [⟨programs, .openDocument "u" "javascript" 0
        "stylex.create(\x7bcolor:\"#0000ff80\"\x7d)" (some (createColor "#0000ff80" 35))⟩,
      ⟨programs, .colors "u"⟩]
    let offered (turns : List Turn) (start : Position) (hex : String) : Prop := ∃ rest,
      (((Run.start .default none).after turns).session.reply programs
        (.colorPresentation "u" ⟨start, start⟩ ⟨1, 1, 1, 1⟩)).1 =
          .ok (.presentations (hex :: rest))
    offered asked ⟨0, 22⟩ "#ffffffff" ∧ offered asked ⟨0, 21⟩ "#ffffff" ∧
      offered (asked ++ [⟨programs, .close "u"⟩]) ⟨0, 22⟩ "#ffffff" := by
  intro programs asked offered
  have hopaque : (1 : Float) = 1 := rfl
  have hdigits : Color.hexOpaque ⟨1, 1, 1, 1⟩ = "#ffffff" := by decide +kernel
  have hdigits' : Color.hexOpaque ⟨1, 1, 1, 1⟩ ++ "ff" = "#ffffffff" := by decide +kernel
  have hshown : (lastShown "u" ((Run.start .default none).after asked).past).map
      (fun swatch => (swatch.range.start, swatch.isPlain)) = [(⟨0, 22⟩, false)] := by
    decide +kernel
  obtain ⟨swatch, hlist, hswatch⟩ := List.map_eq_singleton_iff.1 hshown
  obtain ⟨hstart, hclear⟩ := Prod.mk.inj hswatch
  refine ⟨?_, ?_, ?_⟩
  · obtain ⟨hex, rest, hreply, -, hlong, -⟩ := hex_colorPresentation .default none asked programs
      "u" ⟨⟨0, 22⟩, ⟨0, 22⟩⟩ ⟨1, 1, 1, 1⟩
    rw [hlist, List.filter_singleton, hstart] at hlong
    obtain ⟨rfl, -⟩ := hlong hopaque (List.cons_ne_nil _ _) (List.forall_mem_singleton.2 hclear)
    exact ⟨rest, hdigits' ▸ hreply⟩
  · obtain ⟨hex, rest, hreply, hshort, -⟩ := hex_colorPresentation .default none asked programs
      "u" ⟨⟨0, 21⟩, ⟨0, 21⟩⟩ ⟨1, 1, 1, 1⟩
    rw [hlist, List.filter_singleton, hstart] at hshort
    obtain ⟨rfl, -⟩ := hshort hopaque (List.forall_mem_nil _)
    exact ⟨rest, hdigits ▸ hreply⟩
  · obtain ⟨hex, rest, hreply, hshort, -⟩ := hex_colorPresentation .default none
      (asked ++ [⟨programs, .close "u"⟩]) programs "u" ⟨⟨0, 22⟩, ⟨0, 22⟩⟩ ⟨1, 1, 1, 1⟩
    obtain ⟨rfl, -⟩ := hshort hopaque (by decide +kernel)
    exact ⟨rest, hdigits ▸ hreply⟩

end StyleSense.Service
