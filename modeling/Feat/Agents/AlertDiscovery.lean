import Feat.Lib.Hash

/- What an alert agent makes of the discovery of a shard (`feat.agents.alert.alert_agent`:
   `AlertAgent._parse_discovery_response`).

   The keys of the alerts that are known are taken from a list one after the other as they
   are reported. What is left of the list at the end is not reported by anybody, and goes
   unless it is persistent. A key that is reported twice is in the list only the first time:
   the second report makes a new alert in the place of the one that was there.

   Where no key is reported twice a response is processed as it should be
   (`processed_iff`), and only there. -/
namespace Feat.Agents.Alerting
open Hash

inductive Severity where
  | ok
  | warn
  | critical
  deriving DecidableEq

/-- What is known of an alert that was raised: `(count, info, severity)`. -/
structure Status where
  count : Nat
  info : Option String
  severity : Severity
  deriving DecidableEq

/-- An `IAlertFactory`. -/
structure Alert where
  name : String
  description : Option String
  persistent : Bool

/-- `AlertingAgentEntry`. -/
structure AgentEntry where
  hostname : String
  agentId : String
  alerts : List Alert
  statuses : Dict String Status

/-- `AlertService`. Objects are numbered in the order they are made. -/
structure AlertService where
  object : Nat
  name : String
  agentId : Option String
  description : String
  severity : Severity
  persistent : Bool
  hostname : String
  statusInfo : Option String
  receivedCount : Nat
  deriving DecidableEq

/-- A hostname and a description. -/
abbrev Key : Type := String × String

/-- `AlertAgent`, as far as alerts go, with the number of objects that were made. -/
structure AlertAgent where
  hosts : List String
  alerts : Dict Key AlertService
  made : Nat

/-- `alert.description or "-".join([agent.agent_id, alert.name])`. -/
def descriptionOf (agent : AgentEntry) (alert : Alert) : String :=
  match alert.description with
  | some description => if description ≠ "" then description else agent.agentId ++ "-" ++ alert.name
  | none => agent.agentId ++ "-" ++ alert.name

/-- `_alert_key`. -/
def alertKey (agent : AgentEntry) (alert : Alert) : Key :=
  (agent.hostname, descriptionOf agent alert)

/-- `AlertService.from_alert`. -/
def AlertService.fromAlert (object : Nat) (alert : Alert) (agent : AgentEntry) : AlertService where
  object := object
  name := alert.name
  agentId := some agent.agentId
  description := descriptionOf agent alert
  severity := .ok
  persistent := alert.persistent
  hostname := agent.hostname
  statusInfo := none
  receivedCount := 0

/-- What `statuses` says of the alert is taken over. -/
def AlertService.withStatus (service : AlertService) (status : Option Status) : AlertService :=
  match status with
  | some status =>
    { service with
      receivedCount := status.count
      statusInfo := status.info
      severity := status.severity }
  | none => service

/-- The variables of `_parse_discovery_response`. -/
structure Parsing where
  alerts : Dict Key AlertService
  made : Nat
  oldKeys : List Key
  toSave : List AlertService
  changed : Bool

/-- A new alert. -/
def newService (made : Nat) (agent : AgentEntry) (alert : Alert) : AlertService :=
  (AlertService.fromAlert made alert agent).withStatus (agent.statuses.lookup alert.name)

/-- One alert of one agent. -/
def parseAlert (hosts : List String) (agent : AgentEntry) (p : Parsing) (alert : Alert) : Parsing :=
  if agent.hostname ∉ hosts then p
  else
    let key := alertKey agent alert
    if key ∈ p.oldKeys then { p with oldKeys := p.oldKeys.erase key }
    else
      let new := newService p.made agent alert
      { p with
        alerts := p.alerts.insert key new
        made := p.made + 1
        toSave := if new.persistent then p.toSave ++ [new] else p.toSave
        changed := true }

def parseAgent (hosts : List String) (p : Parsing) (agent : AgentEntry) : Parsing :=
  agent.alerts.foldl (parseAlert hosts agent) p

/-- A key that nobody reported. -/
def forget (p : Dict Key AlertService × Bool) (key : Key) : Dict Key AlertService × Bool :=
  match p.1.lookup key with
  | some service => if service.persistent then p else (p.1.erase key, true)
  | none => p

/-- `_parse_discovery_response`: the alerts that are to be saved, and whether there was a change. -/
def AlertAgent.parseDiscoveryResponse (s : AlertAgent) (response : List AgentEntry) :
    AlertAgent × List AlertService × Bool :=
  let p := response.foldl (parseAgent s.hosts) ⟨s.alerts, s.made, s.alerts.keys, [], false⟩
  let (alerts, changed) := p.oldKeys.foldl forget (p.alerts, p.changed)
  ({ s with alerts, made := p.made }, p.toSave, changed)

/-! ## What is promised, and when -/

/-- The keys of a response from hosts that are handled, as often as they are reported. -/
def accepted (hosts : List String) (response : List AgentEntry) : List Key :=
  (response.filter (·.hostname ∈ hosts)).flatMap fun agent => agent.alerts.map (alertKey agent)

/-- A response is processed once, and no alert is lost: the alerts are those that are reported and
the persistent ones known before, those known before are what they were, each new persistent one is
saved once, and the same response changes nothing more. -/
structure Processed (s : AlertAgent) (response : List AgentEntry) (t : AlertAgent)
    (toSave : List AlertService) : Prop where
  keys : ∀ key, key ∈ t.alerts ↔ key ∈ accepted s.hosts response ∨
    ∃ service, s.alerts.lookup key = some service ∧ service.persistent = true
  kept : ∀ key service, s.alerts.lookup key = some service → key ∈ t.alerts →
    t.alerts.lookup key = some service
  once : toSave.Nodup
  saved : ∀ service, service ∈ toSave ↔ service.persistent = true ∧
    ∃ key, key ∉ s.alerts ∧ t.alerts.lookup key = some service
  again : t.parseDiscoveryResponse response = (t, [], false)

/-! ## The reports of a response -/

/-- The reports that are handled. -/
def reports (hosts : List String) (response : List AgentEntry) : List (AgentEntry × Alert) :=
  (response.filter (·.hostname ∈ hosts)).flatMap fun agent => agent.alerts.map (Prod.mk agent)

def keyOf (r : AgentEntry × Alert) : Key := alertKey r.1 r.2

/-- A report that is handled. -/
def Parsing.report (p : Parsing) (r : AgentEntry × Alert) : Parsing :=
  if keyOf r ∈ p.oldKeys then { p with oldKeys := p.oldKeys.erase (keyOf r) }
  else
    let new := newService p.made r.1 r.2
    { p with
      alerts := p.alerts.insert (keyOf r) new
      made := p.made + 1
      toSave := if new.persistent then p.toSave ++ [new] else p.toSave
      changed := true }

theorem accepted_eq (hosts : List String) (response : List AgentEntry) :
    accepted hosts response = (reports hosts response).map keyOf := by
  unfold accepted reports
  rw [List.map_flatMap]
  simp only [List.map_map]
  rfl

theorem foldl_parseAgent (hosts : List String) (response : List AgentEntry) (p : Parsing) :
    response.foldl (parseAgent hosts) p = (reports hosts response).foldl Parsing.report p := by
  induction response generalizing p with
  | nil => rfl
  | cons agent response ih =>
    rw [List.foldl_cons, ih]
    unfold reports parseAgent
    by_cases hhost : agent.hostname ∈ hosts
    · have hstep : parseAlert hosts agent = fun p alert => p.report (agent, alert) := by
        funext p alert
        unfold parseAlert
        rw [if_neg (fun hnot => hnot hhost)]
        rfl
      rw [List.filter_cons_of_pos (by simpa using hhost), List.flatMap_cons, List.foldl_append,
        List.foldl_map, hstep]
    · have hstep : parseAlert hosts agent = fun p _ => p := by
        funext p alert
        unfold parseAlert
        rw [if_pos hhost]
      rw [List.filter_cons_of_neg (by simpa using hhost), hstep]
      congr 1
      induction agent.alerts with
      | nil => rfl
      | cons alert alerts ih' => exact ih'

/-! ## A pass over the reports -/

section Reports
variable {known : Dict Key AlertService} {seen : List Key} {p : Parsing} {r : AgentEntry × Alert}
  {rs : List (AgentEntry × Alert)}

/-- What has become of the alerts after the reports of some keys, each of which came once. -/
structure Parsed (known : Dict Key AlertService) (seen : List Key) (p : Parsing) : Prop where
  nodup : p.oldKeys.Nodup
  old : ∀ key, key ∈ p.oldKeys ↔ key ∈ known ∧ key ∉ seen
  same : ∀ key, key ∈ known ∨ key ∉ seen → p.alerts.lookup key = known.lookup key
  mem : ∀ key, key ∈ p.alerts ↔ key ∈ known ∨ key ∈ seen
  once : p.toSave.Nodup
  fresh : ∀ service ∈ p.toSave, service.object < p.made
  saved : ∀ service, service ∈ p.toSave ↔ service.persistent = true ∧
    ∃ key, key ∉ known ∧ p.alerts.lookup key = some service

theorem parsed_start (known : Dict Key AlertService) (made : Nat) :
    Parsed known [] ⟨known, made, known.keys, [], false⟩ where
  nodup := known.nodupKeys
  old := fun key => by simp [AList.mem_keys]
  same := fun _ _ => rfl
  mem := fun key => by simp
  once := List.nodup_nil
  fresh := fun _ h => by cases h
  saved := fun service => by
    refine iff_of_false List.not_mem_nil ?_
    rintro ⟨-, key, hkey, hlookup⟩
    exact hkey (AList.lookup_isSome.mp (by rw [hlookup]; rfl))

theorem newService_object (made : Nat) (agent : AgentEntry) (alert : Alert) :
    (newService made agent alert).object = made := by
  unfold newService AlertService.withStatus
  split <;> rfl

theorem Parsed.report (h : Parsed known seen p) (hnew : keyOf r ∉ seen) :
    Parsed known (seen ++ [keyOf r]) (p.report r) := by
  unfold Parsing.report
  have hseen : ∀ key, key ∉ seen ++ [keyOf r] ↔ key ∉ seen ∧ key ≠ keyOf r := by simp
  split
  · -- the key was known
    rename_i hold
    have hknown : keyOf r ∈ known := ((h.old _).mp hold).1
    exact {
      nodup := h.nodup.erase _
      old := fun key => by
        rw [h.nodup.mem_erase_iff, h.old, hseen]
        tauto
      same := fun key hkey => h.same key (hkey.imp_right fun hnot => ((hseen key).mp hnot).1)
      mem := fun key => by
        rw [h.mem, List.mem_append, List.mem_singleton]
        constructor
        · exact Or.imp_right .inl
        · rintro (hkey | hkey | rfl)
          · exact .inl hkey
          · exact .inr hkey
          · exact .inl hknown
      once := h.once
      fresh := h.fresh
      saved := h.saved }
  · rename_i hold
    have hunknown : keyOf r ∉ known := fun hknown => hold ((h.old _).mpr ⟨hknown, hnew⟩)
    have hlookup : ∀ key new, key ≠ keyOf r →
        (p.alerts.insert (keyOf r) new).lookup key = p.alerts.lookup key :=
      fun key new hne => AList.lookup_insert_ne hne
    have habsent : p.alerts.lookup (keyOf r) = none := by
      rw [h.same _ (.inr hnew)]
      exact AList.lookup_eq_none.mpr hunknown
    exact {
      nodup := h.nodup
      old := fun key => by
        rw [h.old, hseen]
        refine and_congr_right fun hkey => ⟨fun hnot => ⟨hnot, ?_⟩, fun hnot => hnot.1⟩
        rintro rfl
        exact hunknown hkey
      same := fun key hkey => by
        have hne : key ≠ keyOf r := by
          rintro rfl
          exact hkey.elim hunknown fun hnot => ((hseen _).mp hnot).2 rfl
        exact (hlookup key _ hne).trans (h.same key (hkey.imp_right fun hnot => ((hseen key).mp hnot).1))
      mem := fun key => by
        rw [AList.mem_insert, h.mem, List.mem_append, List.mem_singleton]
        tauto
      once := by
        dsimp only
        split
        · refine List.nodup_append.mpr ⟨h.once, List.nodup_singleton _, fun a ha b hb => ?_⟩
          rw [List.mem_singleton.mp hb]
          rintro rfl
          exact absurd (h.fresh _ ha) (by rw [newService_object]; exact lt_irrefl _)
        · exact h.once
      fresh := fun service hservice => by
        dsimp only at hservice ⊢
        split at hservice
        · obtain hservice | hservice := List.mem_append.mp hservice
          · exact Nat.lt_succ_of_lt (h.fresh service hservice)
          · rw [List.mem_singleton.mp hservice, newService_object]
            exact Nat.lt_succ_self _
        · exact Nat.lt_succ_of_lt (h.fresh service hservice)
      saved := fun service => by
        have hafter : (∃ key, key ∉ known ∧ (p.alerts.insert (keyOf r)
            (newService p.made r.1 r.2)).lookup key = some service) ↔
            (∃ key, key ∉ known ∧ p.alerts.lookup key = some service) ∨
              service = newService p.made r.1 r.2 := by
          constructor
          · rintro ⟨key, hkey, hservice⟩
            by_cases hne : key = keyOf r
            · rw [hne, AList.lookup_insert] at hservice
              exact .inr (Option.some.inj hservice).symm
            · rw [hlookup key _ hne] at hservice
              exact .inl ⟨key, hkey, hservice⟩
          · rintro (⟨key, hkey, hservice⟩ | rfl)
            · refine ⟨key, hkey, (hlookup key _ ?_).trans hservice⟩
              rintro rfl
              cases habsent.symm.trans hservice
            · exact ⟨_, hunknown, AList.lookup_insert _⟩
        dsimp only
        rw [hafter, and_or_left, ← h.saved]
        split
        · rename_i hpersistent
          rw [List.mem_append, List.mem_singleton]
          refine or_congr_right ⟨?_, And.right⟩
          rintro rfl
          exact ⟨hpersistent, rfl⟩
        · rename_i hpersistent
          refine (or_iff_left ?_).symm
          rintro ⟨hservice, rfl⟩
          exact hpersistent hservice }

theorem Parsed.reports (h : Parsed known seen p) (hnodup : (seen ++ rs.map keyOf).Nodup) :
    Parsed known (seen ++ rs.map keyOf) (rs.foldl Parsing.report p) := by
  induction rs generalizing seen p with
  | nil => simpa using h
  | cons r rs ih =>
    rw [List.map_cons, List.append_cons] at hnodup ⊢
    have hnew : keyOf r ∉ seen := fun hseen =>
      (List.nodup_append.mp (List.nodup_append.mp hnodup).1).2.2 _ hseen _
        (List.mem_singleton.mpr rfl) rfl
    exact ih (h.report hnew) hnodup

/-- Reports of keys that are all known leave the alerts as they are. -/
theorem foldl_report_known (hnodup : (rs.map keyOf).Nodup) (hold : ∀ r ∈ rs, keyOf r ∈ p.oldKeys) :
    ∃ oldKeys, rs.foldl Parsing.report p = { p with oldKeys } := by
  induction rs generalizing p with
  | nil => exact ⟨p.oldKeys, rfl⟩
  | cons r rs ih =>
    obtain ⟨hne, hnodup⟩ := List.nodup_cons.mp hnodup
    have hreport : p.report r = { p with oldKeys := p.oldKeys.erase (keyOf r) } :=
      if_pos (hold r List.mem_cons_self)
    rw [List.foldl_cons, hreport]
    refine ih hnodup fun r' hr' => ?_
    refine (List.mem_erase_of_ne fun heq => hne ?_).mpr (hold r' (List.mem_cons_of_mem _ hr'))
    exact heq ▸ List.mem_map_of_mem hr'

theorem report_changed (h : p.changed = true) : (p.report r).changed = true := by
  unfold Parsing.report
  split
  · exact h
  · rfl

theorem report_new (h : keyOf r ∉ p.oldKeys) : (p.report r).changed = true := by
  unfold Parsing.report
  rw [if_neg h]

theorem foldl_report_changed (h : p.changed = true) :
    (rs.foldl Parsing.report p).changed = true := by
  induction rs generalizing p with
  | nil => exact h
  | cons r rs ih => exact ih (report_changed h)

/-- A key that is reported is not in the list any more, or there was a change. -/
theorem report_once (hnodup : p.oldKeys.Nodup) :
    keyOf r ∉ (p.report r).oldKeys ∨ (p.report r).changed = true := by
  unfold Parsing.report
  split
  · exact .inl hnodup.not_mem_erase
  · exact .inr rfl

theorem report_oldKeys : (p.report r).oldKeys.Sublist p.oldKeys := by
  unfold Parsing.report
  split
  · exact List.erase_sublist
  · exact List.Sublist.refl _

theorem foldl_report_oldKeys : (rs.foldl Parsing.report p).oldKeys.Sublist p.oldKeys := by
  induction rs generalizing p with
  | nil => exact List.Sublist.refl _
  | cons r rs ih => exact ih.trans report_oldKeys

/-- Where a key is reported twice there is a change. -/
theorem foldl_report_twice (hnodup : p.oldKeys.Nodup) (htwice : ¬ (rs.map keyOf).Nodup) :
    (rs.foldl Parsing.report p).changed = true := by
  induction rs generalizing p with
  | nil => exact absurd List.nodup_nil htwice
  | cons r rs ih =>
    have hnext : (p.report r).oldKeys.Nodup := report_oldKeys.nodup hnodup
    rw [List.foldl_cons]
    by_cases hrest : (rs.map keyOf).Nodup
    · -- the key comes again among the others
      have hagain : keyOf r ∈ rs.map keyOf := by
        by_contra hnot
        exact htwice (List.nodup_cons.mpr ⟨hnot, hrest⟩)
      obtain ⟨r', hr', hkey⟩ := List.mem_map.mp hagain
      obtain ⟨before, after, rfl⟩ := List.append_of_mem hr'
      rw [List.foldl_append, List.foldl_cons]
      refine foldl_report_changed ?_
      obtain hgone | hchanged := report_once (r := r) hnodup
      · have hnot : keyOf r' ∉ (before.foldl Parsing.report (p.report r)).oldKeys := fun hmem =>
          hgone (hkey ▸ foldl_report_oldKeys.subset hmem)
        exact report_new hnot
      · exact report_changed (foldl_report_changed hchanged)
    · exact ih hnext hrest

end Reports

/-! ## What nobody reports -/

section Forgetting
variable {key : Key} {keys : List Key} {q : Dict Key AlertService × Bool}

/-- A key is of an alert that is not persistent. -/
def Transient (alerts : Dict Key AlertService) (key : Key) : Prop :=
  ∃ service, alerts.lookup key = some service ∧ service.persistent = false

theorem forget_of_not_transient (h : ¬ Transient q.1 key) : forget q key = q := by
  unfold forget
  split
  · rename_i service hservice
    split
    · rfl
    · rename_i hnot
      exact absurd ⟨service, hservice, by simpa using hnot⟩ h
  · rfl

theorem forget_of_transient (h : Transient q.1 key) : forget q key = (q.1.erase key, true) := by
  obtain ⟨service, hservice, hnot⟩ := h
  unfold forget
  rw [hservice]
  dsimp only
  rw [if_neg (by simp [hnot])]

theorem foldl_forget_of_not_transient (h : ∀ key ∈ keys, ¬ Transient q.1 key) :
    keys.foldl forget q = q := by
  induction keys with
  | nil => rfl
  | cons key keys ih =>
    rw [List.foldl_cons, forget_of_not_transient (h key List.mem_cons_self)]
    exact ih fun key' hkey' => h key' (List.mem_cons_of_mem _ hkey')

theorem foldl_forget_changed (h : q.2 = true) : (keys.foldl forget q).2 = true := by
  induction keys generalizing q with
  | nil => exact h
  | cons key keys ih =>
    refine ih ?_
    by_cases htransient : Transient q.1 key
    · rw [forget_of_transient htransient]
    · rw [forget_of_not_transient htransient]
      exact h

/-- Of the keys that nobody reports, those of persistent alerts stay. -/
theorem foldl_forget_lookup {service : AlertService} :
    (keys.foldl forget q).1.lookup key = some service ↔
      q.1.lookup key = some service ∧ (key ∈ keys → service.persistent = true) := by
  induction keys generalizing q with
  | nil => simp
  | cons key' keys ih =>
    rw [List.foldl_cons, ih]
    by_cases htransient : Transient q.1 key'
    · rw [forget_of_transient htransient]
      obtain ⟨service', hservice', hnot⟩ := htransient
      by_cases hkey : key = key'
      · subst hkey
        rw [AList.lookup_erase, hservice']
        refine iff_of_false (fun h => (nomatch h.1)) fun h => ?_
        obtain rfl := Option.some.inj h.1
        rw [h.2 List.mem_cons_self] at hnot
        cases hnot
      · rw [AList.lookup_erase_ne hkey, List.mem_cons]
        simp only [hkey, false_or]
    · rw [forget_of_not_transient htransient]
      refine and_congr_right fun hlookup => ⟨fun h hmem => ?_, fun h hmem =>
        h (List.mem_cons_of_mem _ hmem)⟩
      obtain rfl | hmem := List.mem_cons.mp hmem
      · by_contra hnot
        exact htransient ⟨service, hlookup, by simpa using hnot⟩
      · exact h hmem

theorem foldl_forget_mem : key ∈ (keys.foldl forget q).1 ↔
    ∃ service, q.1.lookup key = some service ∧ (key ∈ keys → service.persistent = true) := by
  rw [← AList.lookup_isSome, Option.isSome_iff_exists]
  exact exists_congr fun service => foldl_forget_lookup

end Forgetting

/-! ## The whole response -/

theorem mem_iff_lookup {alerts : Dict Key AlertService} {key : Key} :
    key ∈ alerts ↔ ∃ service, alerts.lookup key = some service := by
  rw [← AList.lookup_isSome, Option.isSome_iff_exists]

/-- A key that was known before is what it was. -/
theorem Parsed.lookup_known {known : Dict Key AlertService} {seen : List Key} {p : Parsing}
    {key : Key} {service : AlertService} (h : Parsed known seen p)
    (hlookup : known.lookup key = some service) : p.alerts.lookup key = some service :=
  (h.same key (.inl (mem_iff_lookup.mpr ⟨service, hlookup⟩))).trans hlookup

/-- What nobody reports is in the list at the end, where it is known. -/
theorem Parsed.mem_forgotten {known : Dict Key AlertService} {seen : List Key} {p : Parsing}
    {key : Key} (h : Parsed known seen p) :
    key ∈ (p.oldKeys.foldl forget (p.alerts, p.changed)).1 ↔ key ∈ seen ∨
      ∃ service, known.lookup key = some service ∧ service.persistent = true := by
  rw [foldl_forget_mem]
  constructor
  · rintro ⟨service, hlookup, hpersistent⟩
    by_cases hseen : key ∈ seen
    · exact .inl hseen
    · have hknown : key ∈ known :=
        ((h.mem key).mp (mem_iff_lookup.mpr ⟨service, hlookup⟩)).resolve_right hseen
      have hold := (h.old key).mpr ⟨hknown, hseen⟩
      exact .inr ⟨service, (h.same key (.inl hknown)).symm.trans hlookup, hpersistent hold⟩
  · rintro (hseen | ⟨service, hlookup, hpersistent⟩)
    · obtain ⟨service, hlookup⟩ := mem_iff_lookup.mp ((h.mem key).mpr (.inr hseen))
      exact ⟨service, hlookup, fun hold => absurd hseen ((h.old key).mp hold).2⟩
    · exact ⟨service, h.lookup_known hlookup, fun _ => hpersistent⟩

/-- A response in which no key comes twice is processed as it should be. -/
theorem processed {s : AlertAgent} {response : List AgentEntry}
    (hnodup : (accepted s.hosts response).Nodup) :
    Processed s response (s.parseDiscoveryResponse response).1
      (s.parseDiscoveryResponse response).2.1 := by
  rw [accepted_eq] at hnodup
  have h := (parsed_start s.alerts s.made).reports hnodup
  rw [List.nil_append] at h
  obtain ⟨p, hp⟩ : ∃ p, (reports s.hosts response).foldl Parsing.report
    ⟨s.alerts, s.made, s.alerts.keys, [], false⟩ = p := ⟨_, rfl⟩
  rw [hp] at h
  have ht : s.parseDiscoveryResponse response =
      (⟨s.hosts, (p.oldKeys.foldl forget (p.alerts, p.changed)).1, p.made⟩, p.toSave,
        (p.oldKeys.foldl forget (p.alerts, p.changed)).2) := by
    unfold AlertAgent.parseDiscoveryResponse
    rw [foldl_parseAgent, hp]
  rw [ht]
  have hkeys : ∀ key, key ∈ (p.oldKeys.foldl forget (p.alerts, p.changed)).1 ↔
      key ∈ accepted s.hosts response ∨
        ∃ service, s.alerts.lookup key = some service ∧ service.persistent = true := by
    intro key
    rw [accepted_eq]
    exact h.mem_forgotten
  refine ⟨hkeys, fun key service hlookup hmem => ?_, h.once, fun service => ?_, ?_⟩
  · obtain ⟨service', hafter⟩ := mem_iff_lookup.mp hmem
    have hbefore := (foldl_forget_lookup.mp hafter).1
    obtain rfl := Option.some.inj (hbefore.symm.trans (h.lookup_known hlookup))
    exact hafter
  · rw [h.saved]
    refine and_congr_right fun _ => exists_congr fun key => and_congr_right fun hunknown => ?_
    rw [foldl_forget_lookup]
    exact (and_iff_left fun hold => absurd ((h.old key).mp hold).1 hunknown).symm
  · -- the second time all that is reported is known, and nothing else is left but persistent alerts
    obtain ⟨alerts, halerts⟩ : ∃ alerts, (p.oldKeys.foldl forget (p.alerts, p.changed)).1 = alerts :=
      ⟨_, rfl⟩
    rw [halerts] at hkeys ⊢
    have hold : ∀ r ∈ reports s.hosts response, keyOf r ∈ alerts.keys := fun r hr => by
      refine AList.mem_keys.mp ((hkeys _).mpr (.inl ?_))
      rw [accepted_eq]
      exact List.mem_map_of_mem hr
    obtain ⟨oldKeys, hagain⟩ := foldl_report_known (p := ⟨alerts, p.made, alerts.keys, [], false⟩)
      hnodup hold
    have h' := (parsed_start alerts p.made).reports hnodup
    rw [List.nil_append, hagain] at h'
    unfold AlertAgent.parseDiscoveryResponse
    rw [foldl_parseAgent, hagain]
    dsimp only
    rw [foldl_forget_of_not_transient]
    rintro key hkey ⟨service, hlookup, hnot⟩
    obtain ⟨hmem, hseen⟩ := (h'.old key).mp hkey
    rw [← halerts] at hlookup
    obtain ⟨hbefore, hpersistent⟩ := foldl_forget_lookup.mp hlookup
    have hknown : key ∈ s.alerts :=
      ((h.mem key).mp (mem_iff_lookup.mpr ⟨service, hbefore⟩)).resolve_right hseen
    rw [hpersistent ((h.old key).mpr ⟨hknown, hseen⟩)] at hnot
    cases hnot

/-- A response is processed as it should be if and only if no key comes twice among those it has
from hosts that are handled. -/
theorem processed_iff (s : AlertAgent) (response : List AgentEntry) :
    Processed s response (s.parseDiscoveryResponse response).1
        (s.parseDiscoveryResponse response).2.1 ↔
      (accepted s.hosts response).Nodup := by
  refine ⟨fun h => ?_, processed⟩
  by_contra htwice
  have hagain := congrArg (·.2.2) h.again
  unfold AlertAgent.parseDiscoveryResponse at hagain
  rw [foldl_parseAgent] at hagain
  dsimp only at hagain
  rw [accepted_eq] at htwice
  rw [foldl_forget_changed (foldl_report_twice (AList.keys_nodup _) htwice)] at hagain
  cases hagain

/-- An agent that has an alert on record, and what two agents on its host report of it. -/
def reportedTwice : AlertAgent × List AgentEntry :=
  let disk : Alert := ⟨"disk", some "disk full", true⟩
  let agent (agentId : String) : AgentEntry := ⟨"host", agentId, [disk], ∅⟩
  let known : AlertService := ⟨0, "disk", some "a", "disk full", .critical, true, "host", none, 3⟩
  (⟨["host"], (∅ : Dict Key AlertService).insert ("host", "disk full") known, 1⟩,
    [agent "a", agent "b"])

/-- The alert that was on record is forgotten, and another one is saved in its place. -/
theorem replaced_by_twin : ¬ Processed reportedTwice.1 reportedTwice.2
    (reportedTwice.1.parseDiscoveryResponse reportedTwice.2).1
    (reportedTwice.1.parseDiscoveryResponse reportedTwice.2).2.1 := by
  intro h
  have hkept := h.kept ("host", "disk full")
    ⟨0, "disk", some "a", "disk full", .critical, true, "host", none, 3⟩ (by decide) (by decide)
  revert hkept
  decide

end Feat.Agents.Alerting
