import XPathTree.Proofs.Nearest

/-! # What an expansion tells

The loop of an expansion goes over the deciding declarations and has two outputs: a record
for each of them, and a node for each that leaves its prefix in use. So the records with the
message for what is in scope tell the nodes in their order, all but the one that is added for
`xml` after the loop, and those with the message for what is undeclared tell which prefixes a
nearest declaration takes out of use.
-/

namespace XPathTree

universe u

variable {N : Type u}

namespace LogRecord

/-- The text in a field, if it holds one. -/
def text? (record : LogRecord) (name : String) : Option String :=
  match record.fields.lookup name with
  | some (.text value) => some value
  | _ => none

/-- The prefix and the URI in the fields. -/
def binding? (record : LogRecord) : Option Binding := do
  return ⟨← record.text? "prefix", ← record.text? "uri"⟩

end LogRecord

/-- What the records with the message for it say to be in scope. -/
def inScopeOf (log : List LogRecord) : List Binding :=
  (log.filter (·.message = "namespace in scope")).filterMap LogRecord.binding?

/-- The two outputs of an expansion. -/
structure Expansion (N : Type u) where
  log : List LogRecord
  nodes : List (NamespaceNode N)

/-- One turn of the loop: a declaration is told, and if it has a URI a node is made for it. -/
def Expansion.turn (element : N) (sofar : Expansion N) (declared : Binding) : Expansion N :=
  if declared.uri = "" then
    { sofar with
      log := sofar.log ++ [⟨.trace, "namespace undeclared", [("prefix", .text declared.pfx)]⟩] }
  else
    { log := sofar.log ++ [⟨.trace, "namespace in scope",
        [("prefix", .text declared.pfx), ("uri", .text declared.uri)]⟩]
      nodes := sofar.nodes ++ [.ofBinding (some element) declared] }

namespace Host

variable (host : Host N)

/-- Expands the axis of a node and tells of it on the way. -/
def expand (node : N) : Expansion N :=
  if host.kind node = .element then
    let looped := (host.scope node).foldl (Expansion.turn node) ⟨[], []⟩
    let nodes := if looped.nodes.any (·.pfx == xmlPrefix) then looped.nodes
      else looped.nodes ++ [⟨some node, xmlPrefix, xmlUri⟩]
    ⟨looped.log ++ [⟨.debug, "namespace axis expanded",
      [("element", .text (host.nodeName node)), ("count", .number nodes.length)]⟩], nodes⟩
  else ⟨[], []⟩

/-- Whether the nearest declaration of `xml` on a chain gives it a URI. -/
def DeclaresXml (chain : List N) : Prop :=
  ∃ above declaration uri, host.Nearest chain xmlPrefix above declaration ∧
    host.nodeValue declaration = some uri ∧ uri ≠ ""

/-- What the log of an expansion tells of an element with a chain, and of its axis. -/
structure Tells (element : N) (chain : List N) : Prop where
  /-- Records and nodes are the two outputs of one run. -/
  one_run : host.expand element = ⟨host.axisLog element, host.namespaceAxis element⟩
  /-- There is one detail for each prefix that is declared, and one summary after them. -/
  levels_eq : (host.axisLog element).map LogRecord.level =
    List.replicate (firsts id ((host.declaredNodes element chain).map (·.pfx))).length .trace ++
      [.debug]
  /-- The details come in the order in which the prefixes are first met. -/
  prefixes_eq : (host.axisLog element).filterMap (·.text? "prefix") =
    firsts id ((host.declaredNodes element chain).map (·.pfx))
  message_of_trace : ∀ record ∈ host.axisLog element, record.level = .trace →
    record.message = "namespace in scope" ∨ record.message = "namespace undeclared"
  summary_eq : (host.axisLog element).getLast? = some ⟨.debug, "namespace axis expanded",
    [("element", .text (host.nodeName element)),
      ("count", .number (host.namespaceAxis element).length)]⟩
  /-- Where a declaration of `xml` is in scope, all nodes are told, -/
  all_told_iff : host.axisPairs element = inScopeOf (host.axisLog element) ↔
    host.DeclaresXml chain
  /-- and where none is, all but a last one that has the reserved URI. -/
  all_but_xml_told_iff : host.axisPairs element =
      inScopeOf (host.axisLog element) ++ [⟨xmlPrefix, xmlUri⟩] ↔ ¬ host.DeclaresXml chain
  in_scope_iff : ∀ record,
    record ∈ host.axisLog element ∧ record.message = "namespace in scope" ↔
      ∃ pfx uri above declaration, record =
          ⟨.trace, "namespace in scope", [("prefix", .text pfx), ("uri", .text uri)]⟩ ∧
        host.Nearest chain pfx above declaration ∧
          host.nodeValue declaration = some uri ∧ uri ≠ ""
  undeclared_iff : ∀ record,
    record ∈ host.axisLog element ∧ record.message = "namespace undeclared" ↔
      ∃ pfx above declaration,
        record = ⟨.trace, "namespace undeclared", [("prefix", .text pfx)]⟩ ∧
          host.Nearest chain pfx above declaration ∧
            (host.nodeValue declaration).getD "" = ""
  /-- What is told to be out of use is not on the axis, but for `xml` as it is reserved. -/
  undeclared_off : ∀ record ∈ host.axisLog element, record.message = "namespace undeclared" →
    ∀ node ∈ host.namespaceAxis element, record.text? "prefix" = some node.pfx →
      node.pfx = xmlPrefix ∧ node.uri = xmlUri

end Host

/-! ## The loop -/

/-- The record of a deciding declaration. -/
def Binding.record (binding : Binding) : LogRecord :=
  if binding.uri = "" then ⟨.trace, "namespace undeclared", [("prefix", .text binding.pfx)]⟩
  else ⟨.trace, "namespace in scope", [("prefix", .text binding.pfx), ("uri", .text binding.uri)]⟩

theorem AxisEvent.record_ofBinding (binding : Binding) :
    (ofBinding binding).record = binding.record := by
  unfold ofBinding Binding.record
  split <;> rfl

theorem Expansion.turn_eq (element : N) (sofar : Expansion N) (declared : Binding) :
    sofar.turn element declared =
      ⟨sofar.log ++ [declared.record], sofar.nodes ++
        ([declared].filter (·.uri ≠ "")).map (.ofBinding (some element))⟩ := by
  by_cases huri : declared.uri = "" <;> simp [turn, Binding.record, huri]

theorem Expansion.foldl_turn (element : N) (bindings : List Binding) (sofar : Expansion N) :
    bindings.foldl (turn element) sofar =
      ⟨sofar.log ++ bindings.map Binding.record, sofar.nodes ++
        (bindings.filter (·.uri ≠ "")).map (.ofBinding (some element))⟩ := by
  induction bindings generalizing sofar with
  | nil => simp
  | cons declared bindings ih =>
      rw [List.foldl_cons, ih, turn_eq, List.append_assoc, List.append_assoc, ← List.map_append,
        ← List.filter_append]
      rfl

namespace Binding

theorem level_record (binding : Binding) : binding.record.level = .trace := by
  unfold record
  split <;> rfl

theorem text?_prefix_record (binding : Binding) :
    binding.record.text? "prefix" = some binding.pfx := by
  unfold record
  split <;> rfl

theorem message_record_eq_inScope_iff (binding : Binding) :
    binding.record.message = "namespace in scope" ↔ binding.uri ≠ "" := by
  by_cases huri : binding.uri = "" <;> simp [record, huri]

theorem message_record_eq_undeclared_iff (binding : Binding) :
    binding.record.message = "namespace undeclared" ↔ binding.uri = "" := by
  by_cases huri : binding.uri = "" <;> simp [record, huri]

theorem binding?_record {binding : Binding} (huri : binding.uri ≠ "") :
    binding.record.binding? = some binding := by
  rw [record, if_neg huri]
  rfl

end Binding

theorem inScopeOf_append (first second : List LogRecord) :
    inScopeOf (first ++ second) = inScopeOf first ++ inScopeOf second := by
  rw [inScopeOf, List.filter_append, List.filterMap_append]
  rfl

/-- What is told to be in scope are the declarations with a URI. -/
theorem inScopeOf_map_record (bindings : List Binding) :
    inScopeOf (bindings.map Binding.record) = bindings.filter (·.uri ≠ "") := by
  rw [inScopeOf, List.filter_map, List.filterMap_map]
  have hfilter : bindings.filter ((fun record => decide (record.message = "namespace in scope")) ∘
      Binding.record) = bindings.filter (·.uri ≠ "") :=
    List.filter_congr fun binding _ =>
      decide_eq_decide.mpr binding.message_record_eq_inScope_iff
  rw [hfilter]
  refine (List.filterMap_congr fun binding hbinding => ?_).trans List.filterMap_some
  exact Binding.binding?_record (of_decide_eq_true (List.mem_filter.mp hbinding).2)

namespace Host

variable (host : Host N) {element : N}

/-- The record of a whole expansion. -/
def summary (node : N) : LogRecord :=
  ⟨.debug, "namespace axis expanded", [("element", .text (host.nodeName node)),
    ("count", .number (host.namespaceAxis node).length)]⟩

theorem axisLog_eq (helement : host.kind element = .element) :
    host.axisLog element = (host.scope element).map Binding.record ++ [host.summary element] := by
  rw [axisLog, axisEvents, if_pos helement, List.map_append, List.map_map]
  congr 1
  exact List.map_congr_left fun binding _ => AxisEvent.record_ofBinding binding

theorem axisLog_of_ne (hother : host.kind element ≠ .element) : host.axisLog element = [] := by
  rw [axisLog, axisEvents, if_neg hother]
  rfl

/-- The records and the axis come out of one run of the loop. -/
theorem expand_eq (node : N) :
    host.expand node = ⟨host.axisLog node, host.namespaceAxis node⟩ := by
  unfold expand
  split
  next helement =>
    have hnodes : (if ((host.bindingsInUse node).map (NamespaceNode.ofBinding (some node))).any
        (·.pfx == xmlPrefix)
          then (host.bindingsInUse node).map (NamespaceNode.ofBinding (some node))
          else (host.bindingsInUse node).map (NamespaceNode.ofBinding (some node)) ++
            [⟨some node, xmlPrefix, xmlUri⟩]) = host.namespaceAxis node := by
      rw [host.namespaceAxis_eq_map helement, axisBindings, List.any_map]
      by_cases hxml : (host.bindingsInUse node).any (·.pfx == xmlPrefix)
      · rw [if_pos hxml]
        exact if_pos hxml
      · rw [if_neg hxml, List.map_append]
        exact if_neg hxml
    simp only [Expansion.foldl_turn, List.nil_append]
    rw [host.axisLog_eq helement, summary, ← hnodes]
    rfl
  next hother => rw [host.axisLog_of_ne hother, namespaceAxis, if_neg hother]

/-! ## Single records -/

/-- But for the summary every record is one of a deciding declaration. -/
theorem mem_axisLog_iff (helement : host.kind element = .element) {record : LogRecord} :
    record ∈ host.axisLog element ↔
      (∃ binding ∈ host.scope element, binding.record = record) ∨ record = host.summary element := by
  rw [host.axisLog_eq helement, List.mem_append, List.mem_map, List.mem_singleton]

theorem exists_inScope_iff (helement : host.kind element = .element) (record : LogRecord) :
    record ∈ host.axisLog element ∧ record.message = "namespace in scope" ↔
      ∃ pfx uri, record =
          ⟨.trace, "namespace in scope", [("prefix", .text pfx), ("uri", .text uri)]⟩ ∧
        ⟨pfx, uri⟩ ∈ host.bindingsInUse element := by
  simp only [host.mem_axisLog_iff helement, host.mem_bindingsInUse]
  constructor
  · rintro ⟨⟨⟨pfx, uri⟩, hscope, rfl⟩ | rfl, hmessage⟩
    · have huri := (Binding.message_record_eq_inScope_iff _).mp hmessage
      exact ⟨pfx, uri, if_neg huri, hscope, huri⟩
    · simp [summary] at hmessage
  · rintro ⟨pfx, uri, rfl, hscope, huri⟩
    exact ⟨Or.inl ⟨_, hscope, if_neg huri⟩, rfl⟩

theorem exists_undeclared_iff (helement : host.kind element = .element) (record : LogRecord) :
    record ∈ host.axisLog element ∧ record.message = "namespace undeclared" ↔
      ∃ pfx, record = ⟨.trace, "namespace undeclared", [("prefix", .text pfx)]⟩ ∧
        ⟨pfx, ""⟩ ∈ host.scope element := by
  simp only [host.mem_axisLog_iff helement]
  constructor
  · rintro ⟨⟨⟨pfx, uri⟩, hscope, rfl⟩ | rfl, hmessage⟩
    · obtain rfl : uri = "" := (Binding.message_record_eq_undeclared_iff _).mp hmessage
      exact ⟨pfx, rfl, hscope⟩
    · simp [summary] at hmessage
  · rintro ⟨pfx, rfl, hscope⟩
    exact ⟨Or.inl ⟨_, hscope, rfl⟩, rfl⟩

variable {chain : List N} (hchain : ParentChain host.parent element chain)

include hchain

/-- In scope is what the nearest declarations say, those that take a prefix out of use
included. -/
theorem mem_scope_iff_nearest {declared : Binding} :
    declared ∈ host.scope element ↔
      ∃ above declaration, host.Nearest chain declared.pfx above declaration ∧
        host.binding declaration = declared := by
  rw [← host.find?_declarationsAlong_eq_some_iff, ← host.find?_scope hchain]
  constructor
  · exact find?_eq_some_of_mem Binding.pfx (host.nodup_scope hchain)
  · exact List.mem_of_find?_eq_some

theorem declaresXml_iff :
    host.DeclaresXml chain ↔ xmlPrefix ∈ (host.bindingsInUse element).map Binding.pfx := by
  have htarget : host.DeclaresXml chain ↔ ∃ uri, host.target? element xmlPrefix = some uri := by
    simp only [host.target?_eq_some_iff_nearest hchain, DeclaresXml]
    constructor
    · exact fun ⟨above, declaration, uri, hnearest⟩ => ⟨uri, above, declaration, hnearest⟩
    · exact fun ⟨uri, above, declaration, hnearest⟩ => ⟨above, declaration, uri, hnearest⟩
  rw [htarget, List.mem_map]
  constructor
  · rintro ⟨uri, huri⟩
    exact ⟨_, (host.mem_bindingsInUse_iff hchain _ _).mpr huri, rfl⟩
  · rintro ⟨⟨_, uri⟩, hbinding, rfl⟩
    exact ⟨uri, (host.mem_bindingsInUse_iff hchain _ _).mp hbinding⟩

/-- A prefix that is emptied by its nearest declaration. -/
theorem mem_scope_empty_iff (pfx : String) :
    ⟨pfx, ""⟩ ∈ host.scope element ↔
      ∃ above declaration, host.Nearest chain pfx above declaration ∧
        (host.nodeValue declaration).getD "" = "" := by
  rw [host.mem_scope_iff_nearest hchain]
  refine exists₂_congr fun above declaration => and_congr_right fun hnearest => ?_
  have hpfx : declaredPrefix (host.nodeName declaration) = pfx := by
    simpa [declares] using (Bool.and_eq_true_iff.mp hnearest.declares).2
  rw [binding, hpfx, Binding.mk.injEq, and_iff_right rfl]

/-- An expansion tells its nodes, and the prefixes that are out of use. -/
theorem namespaceAxis_told :
    (host.kind element ≠ .element → host.expand element = ⟨[], []⟩ ∧
        host.axisLog element = [] ∧ host.namespaceAxis element = []) ∧
      (host.kind element = .element → host.Tells element chain) := by
  refine ⟨fun hother => ⟨if_neg hother, host.axisLog_of_ne hother, if_neg hother⟩,
    fun helement => ?_⟩
  have hlog := host.axisLog_eq helement
  have hprefixes : (host.scope element).map Binding.pfx =
      firsts id ((host.declaredNodes element chain).map (·.pfx)) := by
    rw [declaredNodes_eq, map_pfx_ofBinding, firsts_map, host.scope_eq_firsts hchain]
    rfl
  have htold : inScopeOf (host.axisLog element) = host.bindingsInUse element := by
    rw [hlog, inScopeOf_append, inScopeOf_map_record]
    exact List.append_nil _
  have hpairs : host.axisPairs element = host.bindingsInUse element ++
      if xmlPrefix ∈ (host.bindingsInUse element).map Binding.pfx then []
      else [⟨xmlPrefix, xmlUri⟩] := by
    rw [host.axisPairs_eq_axisBindings helement, axisBindings_eq]
  refine { one_run := host.expand_eq element, levels_eq := ?levels, prefixes_eq := ?prefixes,
           message_of_trace := ?messages, summary_eq := ?summary, all_told_iff := ?told,
           all_but_xml_told_iff := ?untold, in_scope_iff := ?inScope,
           undeclared_iff := ?undeclared, undeclared_off := ?off }
  case levels =>
    rw [hlog, List.map_append, List.map_map, ← hprefixes, List.length_map]
    congr 1
    exact List.map_eq_replicate_iff.mpr fun binding _ => binding.level_record
  case prefixes =>
    rw [hlog, List.filterMap_append, List.filterMap_map, ← hprefixes, ← List.filterMap_eq_map]
    refine (List.append_nil _).trans ?_
    exact List.filterMap_congr fun binding _ => binding.text?_prefix_record
  case messages =>
    intro record hrecord htrace
    rcases (host.mem_axisLog_iff helement).mp hrecord with ⟨binding, _, rfl⟩ | rfl
    · rw [binding.message_record_eq_inScope_iff, binding.message_record_eq_undeclared_iff]
      exact (em _).symm
    · cases htrace
  case summary =>
    rw [hlog, List.getLast?_concat]
    rfl
  case told =>
    rw [hpairs, htold, host.declaresXml_iff hchain]
    by_cases hxml : xmlPrefix ∈ (host.bindingsInUse element).map Binding.pfx
    · rw [if_pos hxml, List.append_nil]
      exact iff_of_true rfl hxml
    · rw [if_neg hxml]
      exact iff_of_false (by simp) hxml
  case untold =>
    rw [hpairs, htold, host.declaresXml_iff hchain]
    by_cases hxml : xmlPrefix ∈ (host.bindingsInUse element).map Binding.pfx
    · rw [if_pos hxml]
      exact iff_of_false (by simp) (not_not_intro hxml)
    · rw [if_neg hxml]
      exact iff_of_true rfl hxml
  case inScope =>
    intro record
    rw [host.exists_inScope_iff helement]
    refine exists₂_congr fun pfx uri => ?_
    rw [host.mem_bindingsInUse_iff hchain, host.target?_eq_some_iff_nearest hchain]
    simp only [exists_and_left]
  case undeclared =>
    intro record
    rw [host.exists_undeclared_iff helement]
    refine exists_congr fun pfx => ?_
    rw [host.mem_scope_empty_iff hchain]
    simp only [exists_and_left]
  case off =>
    intro record hrecord hmessage node hnode hpfx
    obtain ⟨pfx, rfl, hscope⟩ :=
      (host.exists_undeclared_iff helement record).mp ⟨hrecord, hmessage⟩
    obtain rfl : pfx = node.pfx := Option.some.inj hpfx
    have hfound := find?_eq_some_of_mem Binding.pfx (host.nodup_scope hchain) hscope
    have hbinding := (host.exists_mem_namespaceAxis_iff helement node.pfx node.uri).mp
      ⟨node, hnode, rfl, rfl⟩
    rcases (host.mem_axisBindings_iff hchain node.pfx node.uri).mp hbinding with
      htarget | ⟨hxml, huri, _⟩
    · rw [target?, hfound] at htarget
      cases htarget
    · exact ⟨hxml, huri⟩

end Host

/-- The inner element takes `a` out of use and declares `b` twice, the outer one empties `xml`,
which is on the axis all the same. -/
theorem namespaceAxis_told_shadowing :
    ParentChain shadowingTable.host.parent 5 [5, 4, 0] ∧
      shadowingTable.host.kind 5 = .element ∧
      shadowingTable.host.Tells 5 [5, 4, 0] ∧
      shadowingTable.host.axisLog 5 =
        [⟨.trace, "namespace undeclared", [("prefix", .text "a")]⟩,
          ⟨.trace, "namespace in scope", [("prefix", .text "b"), ("uri", .text "urn:b")]⟩,
          ⟨.trace, "namespace in scope", [("prefix", .text ""), ("uri", .text "urn:d")]⟩,
          ⟨.trace, "namespace undeclared", [("prefix", .text xmlPrefix)]⟩,
          ⟨.debug, "namespace axis expanded",
            [("element", .text "inner"), ("count", .number 3)]⟩] := by
  have hchain : ParentChain shadowingTable.host.parent 5 [5, 4, 0] :=
    .step rfl (.step rfl (.top rfl))
  refine ⟨hchain, rfl, (shadowingTable.host.namespaceAxis_told hchain).2 rfl, ?_⟩
  decide +kernel

end XPathTree
