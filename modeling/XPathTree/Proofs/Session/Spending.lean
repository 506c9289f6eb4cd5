import XPathTree.Proofs.Forest.Links
import XPathTree.Proofs.Session.Acts

/-! # What plans spend

Work on a forest does acts: it fails with the first of them that does, and of the nodes that
were there it links just those that builders were handed before that. What work does in two
steps is the acts of the first and then those of the second, so the acts of a plan can be read
off the way it is carried out.
-/

namespace XPathTree

open Forest Plan.Act

variable {base forest middle after : Forest} {holdings : Holdings NodeId}

/-- Whether work that was begun on a forest did the acts, up to the first that fails, and made
what is asked for. The acts are those of a plan that was begun on the base. -/
structure Forest.Does {α : Type} (base : Forest) (holdings : Holdings NodeId)
    (acts : List Plan.Act) (asked : Forest → α → Prop) (before : Forest)
    (made : Except PlanError α) (after : Forest) : Prop where
  grows : before.Grows after
  wellFormed : after.WellFormed
  links : before.Links base.ids (spent base holdings acts) after
  ok : ∀ result, made = .ok result → firstFailure? base holdings acts = none ∧ asked after result
  error : ∀ reason, made = .error reason → firstFailure? base holdings acts = some reason

namespace Forest.Does

variable {α : Type} {acts : List Plan.Act} {asked : Forest → α → Prop}

theorem of_ok {result : α} (hgrows : forest.Grows after) (hafter : after.WellFormed)
    (hlinks : forest.Links base.ids (spent base holdings acts) after)
    (hacts : firstFailure? base holdings acts = none) (hasked : asked after result) :
    base.Does holdings acts asked forest (.ok result) after where
  grows := hgrows
  wellFormed := hafter
  links := hlinks
  ok other hother := by
    obtain rfl := Except.ok.inj hother
    exact ⟨hacts, hasked⟩
  error _ hreason := nomatch hreason

theorem of_error {reason : PlanError} (hgrows : forest.Grows after) (hafter : after.WellFormed)
    (hlinks : forest.Links base.ids (spent base holdings acts) after)
    (hacts : firstFailure? base holdings acts = some reason) :
    base.Does holdings acts asked forest (.error reason) after where
  grows := hgrows
  wellFormed := hafter
  links := hlinks
  ok _ hresult := nomatch hresult
  error _ hother := Except.error.inj hother ▸ hacts

end Forest.Does

namespace Building

variable {α β : Type} {acts first second : List Plan.Act} {asked : Forest → α → Prop}
  {further : Forest → β → Prop}

theorem does_pure {result : α} (hforest : forest.WellFormed) (hasked : asked forest result) :
    (pure result : Building α).Meets forest (base.Does holdings [] asked forest) :=
  .of_ok (.refl forest) hforest (.refl forest base.ids) rfl hasked

/-- Work in two steps does the acts of the first and then those of the second. -/
theorem Meets.does_bind {work : Building α} {next : α → Building β}
    (hwork : work.Meets forest (base.Does holdings first asked forest))
    (hnext : ∀ result middle, forest.Grows middle → middle.WellFormed → asked middle result →
      (next result).Meets middle (base.Does holdings second further middle)) :
    (work >>= next).Meets forest (base.Does holdings (first ++ second) further forest) := by
  refine hwork.bind ?_ ?_
  · intro result middle hmiddle
    obtain ⟨hnone, hasked⟩ := hmiddle.ok result rfl
    have hdoes := hnext result middle hmiddle.grows hmiddle.wellFormed hasked
    refine { hdoes with
      grows := hmiddle.grows.trans hdoes.grows
      links := ?_
      ok := ?_
      error := ?_ }
    · rw [spent_append, if_pos hnone]
      exact hmiddle.links.trans hdoes.links
    · rw [firstFailure?_append, hnone, Option.none_or]
      exact hdoes.ok
    · rw [firstFailure?_append, hnone, Option.none_or]
      exact hdoes.error
  · intro reason middle hmiddle
    have hsome := hmiddle.error reason rfl
    refine .of_error hmiddle.grows hmiddle.wellFormed ?_ ?_
    · rw [spent_append, if_neg (by simp [hsome]), List.append_nil]
      exact hmiddle.links
    · rw [firstFailure?_append, hsome, Option.some_or]

theorem Meets.does_map {work : Building α} {f : α → β}
    (hwork : work.Meets forest (base.Does holdings first asked forest))
    (hasked : ∀ result after, forest.Grows after → asked after result → further after (f result)) :
    (work >>= fun result => pure (f result)).Meets forest
      (base.Does holdings first further forest) := by
  rw [← List.append_nil first]
  refine hwork.does_bind ?_
  exact fun result after hgrows hafter hresult =>
    does_pure hafter (hasked result after hgrows hresult)

/-- A check is an act that hands nothing to a node. -/
theorem does_check {ε : Type} {failed : ε → PlanError} {result : Except ε α} {act : Plan.Act}
    (hforest : forest.WellFormed) (hhanded : act.handed holdings = [])
    (hok : ∀ value, result = .ok value → act.failure? base holdings = none ∧ asked forest value)
    (herror : ∀ reason, result = .error reason →
      act.failure? base holdings = some (failed reason)) :
    (check failed result).Meets forest (base.Does holdings [act] asked forest) := by
  have hlinks : forest.Links base.ids (spent base holdings [act]) forest := by
    rw [spent_singleton, hhanded, ite_self]
    exact .refl forest base.ids
  cases result with
  | ok value =>
      obtain ⟨hnone, hasked⟩ := hok value rfl
      exact .of_ok (.refl forest) hforest hlinks ((firstFailure?_singleton act).trans hnone) hasked
  | error reason =>
      exact .of_error (.refl forest) hforest hlinks
        ((firstFailure?_singleton act).trans (herror reason rfl))

end Building

/-! ## What is listed is handed over -/

/-- Whether nodes are of the kinds, and of those on the base just the ones listed. -/
structure Forest.Lists (base : Forest) (kinds : List (Option NodeKind)) (listed : List NodeId)
    (after : Forest) (ids : List NodeId) : Prop where
  mem_ids : ∀ id ∈ ids, id ∈ after.ids
  kinds_eq : ids.map (fun id => (after.content? id).map (·.kind)) = kinds
  mem_iff : ∀ id ∈ base.ids, id ∈ ids ↔ id ∈ listed

/-- Whether a builder has what the calls hand over. -/
structure Calls.Lists (base : Forest) (holdings : Holdings NodeId) (calls : Calls)
    (builder : Builder) : Prop where
  container_eq : builder.container = calls.container
  mem_iff : ∀ id ∈ base.ids, id ∈ builder.handed ↔ id ∈ calls.listed holdings

def Offer.pending? : Offer → Option Builder
  | made _ => none
  | pending builder => some builder

structure Offers.Lists (base : Forest) (holdings : Holdings NodeId) (offers : Offers)
    (offered : List Offer) : Prop where
  pending : List.Forall₂ (fun builder calls => Calls.Lists base holdings calls builder)
    (offered.filterMap Offer.pending?) offers.pending
  mem_iff : ∀ id ∈ base.ids, .made id ∈ offered ↔ id ∈ offers.listed holdings

namespace Calls.Lists

variable {calls : Calls} {builder : Builder} {ids : List NodeId}

theorem addAttributes (hbuilder : calls.Lists base holdings builder) {nodes : Plan}
    (hids : ∀ id ∈ base.ids, id ∈ ids ↔ id ∈ nodes.listed holdings) :
    (calls.addAttributes nodes).Lists base holdings
      { builder with attributes := builder.attributes ++ ids } where
  container_eq := hbuilder.container_eq
  mem_iff id hid := by
    rw [listed, List.mem_append, ← hbuilder.mem_iff id hid, ← hids id hid]
    simp only [Builder.handed, List.mem_append]
    exact or_right_comm

theorem addChildren (hbuilder : calls.Lists base holdings builder) {offers : Offers}
    (hids : ∀ id ∈ base.ids, id ∈ ids ↔ id ∈ offers.listed holdings) :
    (calls.addChildren offers).Lists base holdings
      { builder with children := builder.children ++ ids } where
  container_eq := hbuilder.container_eq
  mem_iff id hid := by
    rw [listed, List.mem_append, ← hbuilder.mem_iff id hid, ← hids id hid]
    simp only [Builder.handed, List.mem_append]
    exact or_assoc.symm

end Calls.Lists

namespace Offers.Lists

variable {offers : Offers} {offered : List Offer}

theorem nodes (hoffered : offers.Lists base holdings offered) {plan : Plan} {ids : List NodeId}
    (hids : ∀ id ∈ base.ids, id ∈ ids ↔ id ∈ plan.listed holdings) :
    (Offers.nodes plan offers).Lists base holdings (ids.map .made ++ offered) where
  pending := by
    have hnone : (ids.map Offer.made).filterMap Offer.pending? = [] := by
      rw [List.filterMap_map]
      exact List.filterMap_none ids
    rw [List.filterMap_append, hnone]
    exact hoffered.pending
  mem_iff id hid := by
    rw [listed, List.mem_append, List.mem_append, hoffered.mem_iff id hid, ← hids id hid]
    simp

theorem builder (hoffered : offers.Lists base holdings offered) {calls : Calls}
    {builder : Builder} (hbuilder : calls.Lists base holdings builder) :
    (Offers.builder calls offers).Lists base holdings (.pending builder :: offered) where
  pending := .cons hbuilder hoffered.pending
  mem_iff id hid := by simp [hoffered.mem_iff id hid, listed]

end Offers.Lists

namespace Forest.Lists

variable {kinds others : List (Option NodeKind)} {listed more ids next : List NodeId}
  {id : NodeId} {content : Content}

theorem of_keeps (hids : base.Lists kinds listed middle ids) (hkeeps : middle.Keeps after) :
    base.Lists kinds listed after ids where
  mem_ids id hid := hkeeps.mem_ids (hids.mem_ids id hid)
  kinds_eq := by
    rw [← hids.kinds_eq]
    exact List.map_congr_left fun id hid => by rw [hkeeps.content?_eq (hids.mem_ids id hid)]
  mem_iff := hids.mem_iff

theorem append (hids : base.Lists kinds listed after ids)
    (hnext : base.Lists others more after next) :
    base.Lists (kinds ++ others) (listed ++ more) after (ids ++ next) where
  mem_ids := List.forall_mem_append.mpr ⟨hids.mem_ids, hnext.mem_ids⟩
  kinds_eq := by rw [List.map_append, hids.kinds_eq, hnext.kinds_eq]
  mem_iff id hid := by
    rw [List.mem_append, List.mem_append, hids.mem_iff id hid, hnext.mem_iff id hid]

/-- A node that is made is none of those on the base. -/
theorem of_new (hbase : base.WellFormed) (hnew : base.next ≤ id)
    (hcontent : after.content? id = some content) :
    base.Lists [some content.kind] [] after [id] where
  mem_ids := List.forall_mem_singleton.mpr (mem_ids_of_content? hcontent)
  kinds_eq := by rw [List.map_singleton, hcontent, Option.map_some]
  mem_iff := by
    intro other hother
    have hlt := Nat.lt_of_lt_of_le (hbase.lt_next other hother) hnew
    simp [Nat.ne_of_lt hlt]

theorem of_held (hid : id ∈ base.ids) (hkeeps : base.Keeps after) :
    base.Lists [(base.content? id).map (·.kind)] [id] after [id] where
  mem_ids := List.forall_mem_singleton.mpr (hkeeps.mem_ids hid)
  kinds_eq := by rw [List.map_singleton, hkeeps.content?_eq hid]
  mem_iff _ _ := Iff.rfl

/-- Whether nodes can be handed over as attributes is seen from their kinds. -/
theorem isAttribute_iff (hids : base.Lists kinds listed after ids) :
    (∀ id ∈ ids, after.IsAttribute id) ↔ ∀ kind ∈ kinds, kind = some .attribute := by
  rw [← hids.kinds_eq]
  simp [IsAttribute]

end Forest.Lists

theorem Forest.lists_nil (base after : Forest) : base.Lists [] [] after [] where
  mem_ids _ hid := nomatch hid
  kinds_eq := rfl
  mem_iff _ _ := Iff.rfl

/-! ## Carrying out a plan -/

namespace Building

variable {first second : List Plan.Act}

/-- One node and then others. -/
theorem Meets.does_cons {work : Building NodeId} {rest : Building (List NodeId)}
    {kind : Option NodeKind} {kinds : List (Option NodeKind)} {listed more : List NodeId}
    (hwork : work.Meets forest (base.Does holdings first
      (fun after id => base.Lists [kind] listed after [id]) forest))
    (hrest : ∀ middle, forest.Grows middle → middle.WellFormed →
      rest.Meets middle (base.Does holdings second (base.Lists kinds more) middle)) :
    (work >>= fun id => rest >>= fun ids => pure (id :: ids)).Meets forest
      (base.Does holdings (first ++ second) (base.Lists (kind :: kinds) (listed ++ more))
        forest) := by
  refine hwork.does_bind ?_
  intro id middle hgrows hmiddle hid
  refine (hrest middle hgrows hmiddle).does_map ?_
  exact fun ids after hgrows' hids => (hid.of_keeps hgrows'.keeps).append hids

theorem does_lookUp (hheld : ∀ id ∈ holdings.owned, id ∈ base.ids)
    (hgrows : base.Grows forest) (hforest : forest.WellFormed) (name : String) :
    (check .lookup (holdings.treeNode name)).Meets forest (base.Does holdings [.lookUp name]
      (fun after id => base.Lists
        [((holdings.treeNode name).toOption.bind base.content?).map (·.kind)]
        (holdings.treeNode name).toOption.toList after [id]) forest) := by
  refine does_check hforest rfl ?_ ?_
  · intro id hnode
    have hid := hheld id (Holdings.mem_owned_of_treeNode hnode)
    simp only [hnode, failure?, Except.toOption, Option.bind_some, Option.toList_some, true_and]
    exact .of_held hid hgrows.keeps
  · intro reason hnode
    simp only [failure?, hnode]

variable (hbase : base.WellFormed) (hgrows : base.Grows forest) (hforest : forest.WellFormed)

include hbase hgrows hforest

theorem does_make_sow (content : Content) :
    (make fun forest => forest.sow content).Meets forest (base.Does holdings []
      (fun after id => base.Lists [some content.kind] [] after [id]) forest) :=
  .of_ok (grows_sow forest content) (hforest.sow content)
    (links_sow (fun _ hid => hgrows.keeps.mem_ids hid) content) rfl
    (.of_new hbase hgrows.next_le (content?_of_contents? (contents?_sow hforest content)))

/-- A builder builds over the held nodes that the calls for it list. -/
theorem does_make_build {calls : Calls} {builder : Builder}
    (hbuilder : calls.Lists base holdings builder) :
    (make builder.build).Meets forest (base.Does holdings [.build calls]
      (fun after id => base.Lists [some calls.container.content.kind] [] after [id]) forest) := by
  refine .of_ok (builder.grows_build hforest) (builder.wellFormed_build hforest) ?_ rfl ?_
  · rw [spent_singleton]
    refine (hforest.links_build (fun _ hid => hgrows.keeps.mem_ids hid) builder).congr ?_
    exact hbuilder.mem_iff
  · rw [← hbuilder.container_eq]
    exact .of_new hbase hgrows.next_le (builder.content?_build_self hforest)

/-- Builders that are pending build in their order, and nodes are left as they are. -/
theorem does_buildAll {offered : List Offer} {pending : List Calls}
    (hpending : List.Forall₂ (fun builder calls => Calls.Lists base holdings calls builder)
      (offered.filterMap Offer.pending?) pending) :
    (buildAll offered).Meets forest (base.Does holdings (pending.map .build)
      (fun _ ids => ∀ id ∈ base.ids, id ∈ ids ↔ .made id ∈ offered) forest) := by
  induction offered generalizing forest pending with
  | nil =>
      cases hpending
      exact does_pure hforest fun id _ => by simp
  | cons offer offered ih =>
      cases offer with
      | made id =>
          refine meets_make_bind ((ih hgrows hforest hpending).does_map ?_)
          intro ids after _ hids other hother
          simp [hids other hother, Offer.build]
      | pending builder =>
          obtain ⟨calls, rest, hbuilder, hrest, rfl⟩ := List.forall₂_cons_left_iff.mp hpending
          refine (does_make_build hbase hgrows hforest hbuilder).does_bind ?_
          intro id middle hmade hmiddle hid
          refine (ih (hgrows.trans hmade) hmiddle hrest).does_map ?_
          -- The node that was built is none of those on the base.
          intro ids after _ hids other hother
          have hnot := hid.mem_iff other hother
          simp only [List.mem_singleton, List.not_mem_nil, iff_false] at hnot
          simp [hids other hother, hnot]

end Building

mutual

/-- A plan does its acts, and ends with the nodes that it lists. -/
theorem Plan.does_run (hbase : base.WellFormed) (hheld : ∀ id ∈ holdings.owned, id ∈ base.ids)
    (plan : Plan) {forest : Forest} (hgrows : base.Grows forest) (hforest : forest.WellFormed) :
    (plan.run holdings).Meets forest (base.Does holdings plan.acts
      (base.Lists (plan.kinds base holdings) (plan.listed holdings)) forest) := by
  cases plan with
  | done => exact Building.does_pure hforest (base.lists_nil forest)
  | leaf content rest =>
      refine (Building.does_make_sow hbase hgrows hforest content).does_cons ?_
      exact fun middle hgrows' hmiddle =>
        rest.does_run hbase hheld (hgrows.trans hgrows') hmiddle
  | held name rest =>
      refine (Building.does_lookUp hheld hgrows hforest name).does_cons ?_
      exact fun middle hgrows' hmiddle =>
        rest.does_run hbase hheld (hgrows.trans hgrows') hmiddle
  | build calls rest =>
      refine (calls.does_run hbase hheld hgrows hforest).does_bind ?_
      intro builder first hgrows' hfirst hbuilder
      have hthere := hgrows.trans hgrows'
      refine (Building.does_make_build hbase hthere hfirst hbuilder).does_cons ?_
      exact fun middle hgrows'' hmiddle =>
        rest.does_run hbase hheld (hthere.trans hgrows'') hmiddle

theorem Calls.does_run (hbase : base.WellFormed) (hheld : ∀ id ∈ holdings.owned, id ∈ base.ids)
    (calls : Calls) {forest : Forest} (hgrows : base.Grows forest) (hforest : forest.WellFormed) :
    (calls.run holdings).Meets forest (base.Does holdings calls.acts
      (fun _ builder => calls.Lists base holdings builder) forest) := by
  cases calls with
  | opened container =>
      exact Building.does_pure hforest ⟨rfl, fun _ _ => Iff.rfl⟩
  | addAttributes earlier nodes =>
      refine (earlier.does_run hbase hheld hgrows hforest).does_bind ?_
      intro builder first hgrows' hfirst hbuilder
      have hthere := hgrows.trans hgrows'
      refine (nodes.does_run hbase hheld hthere hfirst).does_bind ?_
      intro attributes second hgrows'' hsecond hattributes
      refine Building.meets_get_bind (Building.does_check hsecond rfl ?_ ?_)
      · intro called hcalled
        obtain ⟨hall, rfl⟩ := Builder.addAttributes_eq_ok_iff.mp hcalled
        exact ⟨if_pos (hattributes.isAttribute_iff.mp hall),
          hbuilder.addAttributes hattributes.mem_iff⟩
      · intro reason hfailed
        obtain ⟨hnot, rfl⟩ := Builder.addAttributes_eq_error_iff.mp hfailed
        exact if_neg (hattributes.isAttribute_iff.not.mp hnot)
  | addChildren earlier offers =>
      refine (earlier.does_run hbase hheld hgrows hforest).does_bind ?_
      intro builder first hgrows' hfirst hbuilder
      have hthere := hgrows.trans hgrows'
      refine (offers.does_run hbase hheld hthere hfirst).does_bind ?_
      intro offered second hgrows'' hsecond hoffered
      refine (Building.does_buildAll hbase (hthere.trans hgrows'') hsecond
        hoffered.pending).does_map ?_
      intro children after _ hchildren
      rw [Builder.addChildren_eq]
      exact hbuilder.addChildren fun id hid =>
        (hchildren id hid).trans (hoffered.mem_iff id hid)

theorem Offers.does_run (hbase : base.WellFormed) (hheld : ∀ id ∈ holdings.owned, id ∈ base.ids)
    (offers : Offers) {forest : Forest} (hgrows : base.Grows forest)
    (hforest : forest.WellFormed) :
    (offers.run holdings).Meets forest (base.Does holdings offers.acts
      (fun _ offered => offers.Lists base holdings offered) forest) := by
  cases offers with
  | done => exact Building.does_pure hforest ⟨.nil, fun _ _ => by simp [Offers.listed]⟩
  | nodes plan rest =>
      refine (plan.does_run hbase hheld hgrows hforest).does_bind ?_
      intro ids first hgrows' hfirst hids
      refine (rest.does_run hbase hheld (hgrows.trans hgrows') hfirst).does_map ?_
      exact fun offered _ _ hoffered => hoffered.nodes hids.mem_iff
  | builder calls rest =>
      refine (calls.does_run hbase hheld hgrows hforest).does_bind ?_
      intro builder first hgrows' hfirst hbuilder
      refine (rest.does_run hbase hheld (hgrows.trans hgrows') hfirst).does_map ?_
      exact fun offered _ _ hoffered => hoffered.builder hbuilder

end

end XPathTree
