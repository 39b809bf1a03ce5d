import CompactTopicMap.Proofs.Built
import CompactTopicMap.Proofs.Matching.Claims

namespace CompactTopicMap

theorem ite_some_imp {α : Type} {test test' : Bool} {choice choice' : Option α} {item : α}
    (weaker : test' = true → test = true) (same : choice' = some item → choice = some item)
    (found : (if test' then choice' else none) = some item) :
    (if test then choice else none) = some item := by
  obtain ⟨passed, chosen⟩ := Option.ite_none_right_eq_some.mp found
  rw [if_pos (weaker passed)]
  exact same chosen

theorem mem_filterMap_imp {α β : Type} {f g : α → Option β} {items : List α} {result : β}
    (imp : ∀ item, f item = some result → g item = some result)
    (member : result ∈ items.filterMap f) : result ∈ items.filterMap g := by
  obtain ⟨item, inside, found⟩ := List.mem_filterMap.mp member
  exact List.mem_filterMap.mpr ⟨item, inside, imp item found⟩

namespace Matcher

variable {source : Source} {typing : Typing} {written written' : Written} {m m' : Match}

theorem available_antitone (fewer : ∀ c ∈ written, c ∈ written') {c : Construct}
    (available : (Matcher.mk source typing written').available m c = true) :
    (Matcher.mk source typing written).available m c = true := by
  rw [available_iff] at *
  exact ⟨fun early => available.1 (fewer c early), available.2⟩

theorem isOpen_antitone (fewer : ∀ c ∈ written, c ∈ written') {id : AssociationId}
    (free : (Matcher.mk source typing written').isOpen m id = true) :
    (Matcher.mk source typing written).isOpen m id = true := by
  simp only [isOpen, Bool.and_eq_true] at *
  exact ⟨available_antitone fewer free.1, free.2⟩

theorem relation?_antitone (fewer : ∀ c ∈ written, c ∈ written') {c : Construct}
    {pattern : TopicRef} {actual : TopicId}
    (found : (Matcher.mk source typing written').relation? m c pattern actual = some m') :
    (Matcher.mk source typing written).relation? m c pattern actual = some m' :=
  ite_some_imp (available_antitone fewer) (fun bound => bound) found

theorem variant?_antitone (fewer : ∀ c ∈ written, c ∈ written') {pattern : VariantPattern}
    {id : VariantId} (found : (Matcher.mk source typing written').variant? pattern id m = some m') :
    (Matcher.mk source typing written).variant? pattern id m = some m' :=
  ite_some_imp (available_antitone fewer) (fun bound => bound) found

theorem variants?_antitone (fewer : ∀ c ∈ written, c ∈ written') {patterns : List VariantPattern}
    {ids : List VariantId}
    (found : (Matcher.mk source typing written').variants? patterns ids m = some m') :
    (Matcher.mk source typing written).variants? patterns ids m = some m' := by
  induction patterns generalizing ids m with
  | nil =>
    cases ids with
    | nil => exact found
    | cons id ids => cases found
  | cons pattern patterns ih =>
    cases ids with
    | nil => cases found
    | cons id ids =>
      obtain ⟨middle, first, rest⟩ := Option.bind_eq_some_iff.mp found
      rw [variants?, variant?_antitone fewer first, Option.bind_some]
      exact ih rest

theorem name?_antitone (fewer : ∀ c ∈ written, c ∈ written') {pattern : NamePattern} {id : NameId}
    (found : (Matcher.mk source typing written').name? pattern id m = some m') :
    (Matcher.mk source typing written).name? pattern id m = some m' := by
  simp only [name?, Option.bind_eq_bind, Option.bind_eq_some_iff] at found ⊢
  obtain ⟨typed, type, valued, value, themed, scope, reified, reifier, full, variants, last⟩ := found
  exact ⟨typed, type, valued, value, themed, scope, reified, reifier, full,
    variants?_antitone fewer variants, last⟩

theorem roles?_congr (source : Source) (typing : Typing) (written written' : Written)
    (patterns : List RolePattern) (ids : List RoleId) :
    (Matcher.mk source typing written).roles? patterns ids =
      (Matcher.mk source typing written').roles? patterns ids := by
  induction patterns generalizing ids with
  | nil => rfl
  | cons pattern patterns ih =>
    funext m
    simp only [roles?, ih]
    rfl

theorem association?_congr (source : Source) (typing : Typing) (written written' : Written)
    (pattern : AssociationPattern) (id : AssociationId) (m : Match) :
    (Matcher.mk source typing written).association? pattern id m =
      (Matcher.mk source typing written').association? pattern id m := by
  simp only [association?, roles?_congr source typing written written']

/-- What is not written any more adds branches to the search and takes none away. -/
theorem extend_antitone (fewer : ∀ c ∈ written, c ∈ written') {subject : TopicId}
    {statement : Statement} {next : Match}
    (member : next ∈ (Matcher.mk source typing written').extend subject statement m) :
    next ∈ (Matcher.mk source typing written).extend subject statement m := by
  cases statement with
  | isa pattern => exact mem_filterMap_imp (fun _ => relation?_antitone fewer) member
  | ako pattern => exact mem_filterMap_imp (fun _ => relation?_antitone fewer) member
  | name pattern =>
    refine mem_filterMap_imp (fun id => ?_) member
    exact ite_some_imp (available_antitone fewer) (name?_antitone fewer)
  | occurrence pattern =>
    refine mem_filterMap_imp (fun id => ?_) member
    exact ite_some_imp (available_antitone fewer) fun found => found
  | identifier kind pattern =>
    refine mem_filterMap_imp (fun iri => ?_) member
    exact ite_some_imp (available_antitone fewer) fun found => found
  | association pattern =>
    refine mem_filterMap_imp (fun id => ?_) member
    rw [association?_congr source typing written written']
    exact ite_some_imp (isOpen_antitone fewer) fun found => found
  | variant _ | role _ | reifier _ | scope _ => cases member

theorem search_antitone (fewer : ∀ c ∈ written, c ∈ written') {subject : TopicId}
    {statements : List Statement}
    (found : ((Matcher.mk source typing written').search subject statements m).isSome) :
    ((Matcher.mk source typing written).search subject statements m).isSome := by
  -- The two searches may differ in what they find, so only that they find something is carried on.
  induction statements generalizing m with
  | nil => rfl
  | cons statement rest ih =>
    obtain ⟨next, member, later⟩ := List.findSome?_isSome_iff.mp found
    exact List.findSome?_isSome_iff.mpr ⟨next, extend_antitone fewer member, ih later⟩

theorem matchTopic?_antitone (fewer : ∀ c ∈ written, c ∈ written') {t : Template}
    {subject : TopicId}
    (found : ((Matcher.mk source typing written').matchTopic? t subject).isSome) :
    ((Matcher.mk source typing written).matchTopic? t subject).isSome := by
  by_cases kind : t.kind = .topic
  · rw [matchTopic?, if_pos kind] at found ⊢
    exact search_antitone fewer found
  · rw [matchTopic?, if_neg kind] at found
    cases found

theorem matchAssociation?_antitone (fewer : ∀ c ∈ written, c ∈ written') {t : Template}
    {id : AssociationId}
    (found : (Matcher.mk source typing written').matchAssociation? t id = some m) :
    (Matcher.mk source typing written).matchAssociation? t id = some m := by
  obtain ⟨pattern, kind, entries, free, matched⟩ := matchAssociation?_spec found
  simp only [matchAssociation?, kind, entries]
  rw [if_pos (isOpen_antitone fewer free), association?_congr source typing written written']
  exact matched

end Matcher

namespace Session

/-- In two sessions over one graph, a template that applies where more is written applies where less
is: to each topic and to each association. -/
theorem isAdaptive_antitone {s s' : Session} (source : s.source = s'.source)
    (typing : s.typing = s'.typing) {p p' : Progress}
    (fewer : ∀ c ∈ p.written, c ∈ p'.written) (t : Template) :
    (∀ id, s'.isAdaptiveForTopic p' t id = true → s.isAdaptiveForTopic p t id = true) ∧
      ∀ id, s'.isAdaptiveForAssociation p' t id = true →
        s.isAdaptiveForAssociation p t id = true := by
  simp only [isAdaptiveForTopic, isAdaptiveForAssociation, matcher, source, typing]
  constructor
  · intro id adaptive
    exact Matcher.matchTopic?_antitone fewer adaptive
  · intro id adaptive
    obtain ⟨m, found⟩ := Option.isSome_iff_exists.mp adaptive
    exact Option.isSome_iff_exists.mpr ⟨m, Matcher.matchAssociation?_antitone fewer found⟩

def cottageCalls : List BuildCall :=
  [.topicAt .subjectIdentifier "http://t.example/label",
    .topicAt .subjectIdentifier "http://t.example/cottage", .createName ⟨1⟩ ⟨0⟩ "Rose Cottage" [],
    .createName ⟨1⟩ ⟨0⟩ "Cottage" [], .createOccurrence ⟨1⟩ ⟨0⟩ "Cottage" Iri.string []]

def cottage : TopicMap := cottageCalls.foldl BuildCall.apply {}

def cottageSession : Session :=
  { source := cottage.source, settings := {}, table := .empty, typing := {} }

def repeatedTemplate : Template :=
  ⟨"repeated", .topic,
    [.statement (.name { type := .var "$kind", value := "$label" }),
      .statement (.occurrence { type := .var "$kind", value := "$label", datatype := Iri.string })]⟩

/-- While the first name is written, only the second can be chosen. Before that, the first is tried
and given up. -/
theorem cottage_antitone :
    let p := ({} : Progress).mark (.name ⟨0⟩)
    (∀ c ∈ ({} : Progress).written, c ∈ p.written) ∧
      { cottageSession with templates := [repeatedTemplate] }.isAdaptiveForTopic p repeatedTemplate ⟨1⟩
        = true ∧
      cottageSession.isAdaptiveForTopic {} repeatedTemplate ⟨1⟩ = true := by
  have fewer : ∀ c ∈ ({} : Progress).written,
      c ∈ (({} : Progress).mark (.name ⟨0⟩)).written :=
    fun c early => absurd early (Written.not_mem_empty c)
  have adaptive : { cottageSession with templates := [repeatedTemplate] }.isAdaptiveForTopic
      (({} : Progress).mark (.name ⟨0⟩)) repeatedTemplate ⟨1⟩ = true := by rfl
  refine ⟨fewer, adaptive, ?_⟩
  exact (isAdaptive_antitone rfl rfl fewer repeatedTemplate).1 ⟨1⟩ adaptive

end Session
end CompactTopicMap
