import HmcClient.Exchange.Script
import HmcClient.Proofs.Exchange.Endpoint
import HmcClient.Proofs.Resource.Energy
import HmcClient.Resource.Adapter
import HmcClient.Resource.Cpc
import HmcClient.Resource.Nic
import HmcClient.Resource.StorageGroup
import HmcClient.Resource.VirtualSwitch

/-!
# Two ways to name a resource

A resource is named by its path below the base path of an endpoint, or by the URI that the console
gives out, which is the base path and that path. Both make the same URL (`resourceUrl_full`).

So an operation that uses the name for nothing but the URL of its requests is the same for both, not
only in what it sends and gives back but as a program (`Addressed.operate_congr`). All operations
are such, apart from the reading of the present power. That one does not send the name at all; it
compares it with what the console calls the partition, and the console uses one of the two names.
-/

namespace HmcClient

namespace Endpoint

variable {e : Endpoint}

/-- Whether a text is taken for a URI that the console gave out: it is the base path, or starts with
it and a slash. -/
def Carries (e : Endpoint) (uri : String) : Prop :=
  uri = e.basePath ∨ ∃ rest, uri = e.basePath ++ "/" ++ rest

theorem carries_iff {uri : String} : e.Carries uri ↔
    uri.toList = e.basePathChars ∨ (e.basePathChars ++ ['/']).isPrefixOf uri.toList = true := by
  have htext (rest : String) : (e.basePath ++ "/" ++ rest).toList =
      e.basePathChars ++ ['/'] ++ rest.toList := by
    rw [String.toList_append, String.toList_append, basePath, String.toList_ofList]
    rfl
  rw [Carries, List.isPrefixOf_iff_prefix]
  constructor
  · rintro (rfl | ⟨rest, rfl⟩)
    · exact .inl String.toList_ofList
    · exact .inr ⟨rest.toList, (htext rest).symm⟩
  · rintro (heq | ⟨rest, hrest⟩)
    · exact .inl (by rw [basePath, ← heq, String.ofList_toList])
    · refine .inr ⟨String.ofList rest, String.toList_inj.mp ?_⟩
      rw [htext, String.toList_ofList, hrest]

instance (uri : String) : Decidable (e.Carries uri) := decidable_of_iff _ carries_iff.symm

theorem below?_full {base : List Char} (hbase : base ≠ []) (tail : List Char) :
    below? base (base ++ '/' :: tail) = some tail := by
  have hne : base ++ '/' :: tail ≠ base := by simp
  have hprefix : (base ++ ['/']).isPrefixOf (base ++ '/' :: tail) = true := by
    rw [List.isPrefixOf_iff_prefix]
    exact ⟨tail, by rw [List.append_assoc]; rfl⟩
  have hdrop : (base ++ '/' :: tail).drop (base.length + 1) = tail := by
    rw [List.drop_append]
    simp
  rw [below?, if_neg hbase, if_neg hne, if_pos hprefix, hdrop]

theorem below?_relative {tail : List Char} (htail : tail.head? ≠ some '/')
    (h : ¬ e.Carries (String.ofList ('/' :: tail))) :
    below? e.basePathChars ('/' :: tail) = some tail := by
  have hdrop : ('/' :: tail).dropWhile (· == '/') = tail := by
    rw [List.dropWhile_cons_of_pos (by rfl)]
    cases tail with
    | nil => rfl
    | cons c rest => exact List.dropWhile_cons_of_neg (by simpa using htail)
  rw [carries_iff, String.toList_ofList, not_or] at h
  rw [below?, if_neg h.1, if_neg h.2, hdrop, ite_self]

/-- A path below the base path and the URI with the base path in front name one resource. -/
theorem resourceUrl_full (hbase : e.basePath ≠ "") {text : String}
    (htext : text.toList.head? ≠ some '/') (h : ¬ e.Carries ("/" ++ text)) :
    e.resourceUrl (e.basePath ++ ("/" ++ text)) = e.resourceUrl ("/" ++ text) := by
  have hchars : e.basePathChars ≠ [] := fun hnil => hbase (by rw [basePath, hnil])
  have hrelative : ("/" ++ text).toList = '/' :: text.toList := String.toList_append
  have hfull : (e.basePath ++ ("/" ++ text)).toList = e.basePathChars ++ '/' :: text.toList := by
    rw [String.toList_append, hrelative, basePath, String.toList_ofList]
  have hofList : String.ofList ('/' :: text.toList) = "/" ++ text := by
    rw [← hrelative, String.ofList_toList]
  rw [resourceUrl, resourceUrl, hfull, hrelative, resourcePath_eq, resourcePath_eq,
    below?_full hchars, below?_relative htext (by rwa [hofList])]

end Endpoint

/-! ## Operations -/

/-- The operations that send requests to a resource named by the caller, with whatever else they are
given. -/
inductive Addressed : Type → Type where
  | cpcProperties : Addressed CpcProperties
  | partitions (filter : ListFilter) : Addressed (List Partition)
  | createPartition (partition : PartitionCreate) : Addressed String
  | partitionProperties : Addressed PartitionProperties
  | updatePartition (changes : PartitionUpdate) : Addressed Unit
  | deletePartition : Addressed Unit
  | startPartition : Addressed JobHandle
  | stopPartition : Addressed JobHandle
  | mountIso (image : List UInt8) (imageName insFileName : String) : Addressed Unit
  | unmountIso : Addressed Unit
  | nicUris : Addressed (List String)
  | attachStorageGroup (groupUri : String) : Addressed Unit
  | detachStorageGroup (groupUri : String) : Addressed Unit
  | increaseCryptoConfiguration (config : CryptoConfig) : Addressed Unit
  | asciiConsole : Addressed AsciiConsole
  | energy (query : EnergyQuery) : Addressed (List WattageSample)
  | createNic (nic : NicCreate) : Addressed String
  | nicProperties : Addressed NicProperties
  | updateNic (changes : NicUpdate) : Addressed Unit
  | deleteNic : Addressed Unit
  | adapters (filter : ListFilter) : Addressed (List Adapter)
  | createHipersocket (hipersocket : HipersocketCreate) : Addressed String
  | adapterProperties : Addressed AdapterProperties
  | deleteHipersocket : Addressed Unit
  | networkPort : Addressed NetworkPort
  | storagePort : Addressed StoragePort
  | virtualSwitches (filter : ListFilter) : Addressed (List VirtualSwitch)
  | virtualSwitchProperties : Addressed VirtualSwitchProperties
  | storageGroupProperties : Addressed StorageGroupProperties
  | volumes : Addressed (List StorageVolume)
  | volume : Addressed StorageVolume
  | updateStorageGroup (changes : StorageGroupModify) : Addressed (Option JobHandle)
  | fulfill (accepted : MismatchedVolumes) : Addressed Unit
  | deleteStorageGroup : Addressed Unit
  | storageGroupPartitions : Addressed (List Partition)

namespace Addressed

variable {α : Type} {e : Endpoint} {uri other : String}

/-- What an operation does to the resource. -/
def operate (e : Endpoint) (uri : String) : Addressed α → Operation α
  | cpcProperties => Cpc.properties e uri
  | partitions filter => Partition.list e uri filter
  | createPartition partition => Partition.create e uri partition
  | partitionProperties => Partition.properties e uri
  | updatePartition changes => Partition.update e uri changes
  | deletePartition => Partition.delete e uri
  | startPartition => Partition.start e uri
  | stopPartition => Partition.stop e uri
  | mountIso image imageName insFileName => Partition.mountIso e uri image imageName insFileName
  | unmountIso => Partition.unmountIso e uri
  | nicUris => Partition.nicUris e uri
  | attachStorageGroup groupUri => Partition.attachStorageGroup e uri groupUri
  | detachStorageGroup groupUri => Partition.detachStorageGroup e uri groupUri
  | increaseCryptoConfiguration config => Partition.increaseCryptoConfiguration e uri config
  | asciiConsole => Partition.asciiConsole e uri
  | energy query => Partition.energy e uri query
  | createNic nic => Nic.create e uri nic
  | nicProperties => Nic.properties e uri
  | updateNic changes => Nic.update e uri changes
  | deleteNic => Nic.delete e uri
  | adapters filter => Adapter.list e uri filter
  | createHipersocket hipersocket => Adapter.createHipersocket e uri hipersocket
  | adapterProperties => Adapter.properties e uri
  | deleteHipersocket => Adapter.deleteHipersocket e uri
  | networkPort => Adapter.networkPort e uri
  | storagePort => Adapter.storagePort e uri
  | virtualSwitches filter => VirtualSwitch.list e uri filter
  | virtualSwitchProperties => VirtualSwitch.properties e uri
  | storageGroupProperties => StorageGroup.properties e uri
  | volumes => StorageGroup.volumes e uri
  | volume => StorageGroup.volume e uri
  | updateStorageGroup changes => StorageGroup.update e uri changes
  | fulfill accepted => StorageGroup.fulfill e uri accepted
  | deleteStorageGroup => StorageGroup.delete e uri
  | storageGroupPartitions => StorageGroup.partitions e uri

/-- What an operation puts behind the URI of the resource. -/
def ending : Addressed α → String
  | cpcProperties | partitionProperties | updatePartition _ | deletePartition | nicUris
  | nicProperties | updateNic _ | deleteNic | adapterProperties | deleteHipersocket | networkPort
  | storagePort | virtualSwitchProperties | storageGroupProperties | volume => ""
  | partitions _ | createPartition _ => "/partitions"
  | createNic _ => "/nics"
  | adapters _ | createHipersocket _ => "/adapters"
  | virtualSwitches _ => "/virtual-switches"
  | volumes => "/storage-volumes"
  | startPartition => "/operations/start"
  | stopPartition => "/operations/stop"
  | mountIso .. => "/operations/mount-iso-image"
  | unmountIso => "/operations/unmount-iso-image"
  | attachStorageGroup _ => "/operations/attach-storage-group"
  | detachStorageGroup _ => "/operations/detach-storage-group"
  | increaseCryptoConfiguration _ => "/operations/increase-crypto-configuration"
  | asciiConsole => "/operations/get-ascii-console-websocket-uri"
  | energy _ => "/operations/get-historical-sustainability-data"
  | updateStorageGroup _ => "/operations/modify"
  | fulfill _ => "/operations/accept-mismatched-storage-volumes"
  | deleteStorageGroup => "/operations/delete"
  | storageGroupPartitions => "/operations/get-partitions"

theorem operationUri_eq (uri operation : String) :
    Partition.operationUri uri operation = uri ++ ("/operations/" ++ operation) :=
  String.append_assoc ..

/-- The URI matters only as far as it makes the URL of the requests. -/
theorem operate_congr (x : Addressed α)
    (h : e.resourceUrl (uri ++ x.ending) = e.resourceUrl (other ++ x.ending)) :
    x.operate e uri = x.operate e other := by
  cases x with
  | cpcProperties | partitionProperties | updatePartition _ | deletePartition | nicUris
  | nicProperties | updateNic _ | deleteNic | adapterProperties | deleteHipersocket | networkPort
  | storagePort | virtualSwitchProperties | storageGroupProperties | volume =>
      rw [ending, String.append_empty, String.append_empty] at h
      simp only [operate, Cpc.properties, Partition.properties, Partition.update, Partition.delete,
        Partition.nicUris, Nic.properties, Nic.update, Nic.delete, Adapter.properties,
        Adapter.deleteHipersocket, Adapter.networkPort, Adapter.storagePort,
        VirtualSwitch.properties, StorageGroup.properties, StorageGroup.volume, Endpoint.get,
        Endpoint.postJson, Endpoint.post, Endpoint.delete, h]
  | partitions _ | createPartition _ | createNic _ | adapters _ | createHipersocket _
  | virtualSwitches _ | volumes | updateStorageGroup _ | fulfill _ | deleteStorageGroup
  | storageGroupPartitions =>
      rw [ending] at h
      simp only [operate, Partition.list, Partition.create, Nic.create, Adapter.list,
        Adapter.createHipersocket, VirtualSwitch.list, StorageGroup.volumes, StorageGroup.update,
        StorageGroup.fulfill, StorageGroup.delete, StorageGroup.partitions, Endpoint.get,
        Endpoint.getFiltered, Endpoint.postJson, Endpoint.post, h]
  | startPartition | stopPartition | mountIso _ _ _ | unmountIso | attachStorageGroup _
  | detachStorageGroup _ | increaseCryptoConfiguration _ | asciiConsole | energy _ =>
      rw [ending] at h
      simp only [operate, Partition.start, Partition.stop, Partition.mountIso, Partition.unmountIso,
        Partition.attachStorageGroup, Partition.detachStorageGroup,
        Partition.storageGroupOperation, Partition.increaseCryptoConfiguration,
        Partition.asciiConsole, Partition.energy, Endpoint.postJson, Endpoint.post,
        operationUri_eq, String.reduceAppend, h]

end Addressed

/-! ## The present power

What a partition draws now is read in exchanges that do not name the partition. The partition is
looked up in the samples by the text that the caller has given, so its two names are not the same
here.
-/

namespace Partition

open Talk (transcript)

variable {σ : Type} {e : Endpoint} {uri other : String} {handler : Talk.Handler σ} {s : σ}
  {context : MetricsContext} {index : Nat} {samples : List Sample}

theorem ofCause_noPowerReading_inj {metric : String}
    (h : Failure.ofCause (.noPowerReading metric uri) =
      Failure.ofCause (.noPowerReading metric other)) : uri = other := by
  have hmessage : "no " ++ metric ++ " reading for " ++ uri =
      "no " ++ metric ++ " reading for " ++ other := congrArg Failure.message h
  exact String.append_right_inj _ |>.mp hmessage

theorem readingIn_eq_iff (hne : uri ≠ other) :
    readingIn uri index samples = readingIn other index samples ↔
      ∃ watts, TellsPower samples uri index watts ∧ TellsPower samples other index watts := by
  simp only [← reading?_eq_some, readingIn]
  constructor
  · intro h
    cases huri : reading? samples uri index with
    | some watts =>
        cases hother : reading? samples other index with
        | some found => rw [huri, hother] at h; cases h; exact ⟨_, rfl, rfl⟩
        | none => rw [huri, hother] at h; cases h
    | none =>
        cases hother : reading? samples other index with
        | some watts => rw [huri, hother] at h; cases h
        | none =>
            -- Each failure names its partition, so two equal ones name the same.
            rw [huri, hother] at h
            exact absurd (ofCause_noPowerReading_inj (Except.error.inj h)) hne
  · rintro ⟨watts, huri, hother⟩
    rw [huri, hother]

theorem readPower_state (e : Endpoint) (context : MetricsContext) (uri other : String)
    (handler : Talk.Handler σ) (s : σ) :
    ((readPower e context uri).run.run handler s).2 =
      ((readPower e context other).run.run handler s).2 := by
  rw [readPower, readPower]
  cases context.metricIndex? usageGroup powerMetric with
  | none => rfl
  | some index =>
      dsimp only
      cases hsamples : ((MetricsContext.samples e context.uri).run.run handler s).1 with
      | error failure => rw [(Talk.run_bind_error hsamples).1, (Talk.run_bind_error hsamples).1]
      | ok samples =>
          rw [(Talk.run_bind_ok hsamples).1, (Talk.run_bind_ok hsamples).1]
          -- Nothing is asked for any more, whatever is found.
          cases reading? samples uri index <;> cases reading? samples other index <;> rfl

theorem transcript_readPower_congr (e : Endpoint) (context : MetricsContext) (uri other : String)
    (handler : Talk.Handler σ) (s : σ) :
    transcript handler (readPower e context uri).run s =
      transcript handler (readPower e context other).run s := by
  cases h : context.metricIndex? usageGroup powerMetric with
  | none => rw [(readPower_of_none h).2, (readPower_of_none h).2]
  | some index => rw [(readPower_of_some h).2, (readPower_of_some h).2]

theorem transcript_readAndDelete (e : Endpoint) (uri : String) (context : MetricsContext)
    (handler : Talk.Handler σ) (s : σ) :
    transcript handler (readAndDelete e uri context).run s =
      transcript handler (readPower e context uri).run s ++
        transcript handler (MetricsContext.delete e context.uri).run
          ((readPower e context uri).run.run handler s).2 := by
  rw [readAndDelete, (Talk.run_bind_lift (readPower e context uri) _ s).2,
    (Talk.run_bind_lift (MetricsContext.delete e context.uri) _ _).2]
  exact congrArg _ (List.append_nil _)

/-- The requests do not depend on how the partition is named, nor on which one it is. -/
theorem transcript_liveEnergy_congr (e : Endpoint) (uri other : String)
    (handler : Talk.Handler σ) (s : σ) :
    transcript handler (liveEnergy e uri).run s =
      transcript handler (liveEnergy e other).run s := by
  cases h : contextOf (created e handler s).1 with
  | error failure => rw [(liveEnergy_of_error h).2, (liveEnergy_of_error h).2]
  | ok context =>
      have hcreate := (congrArg Prod.fst run_create).trans h
      rw [liveEnergy_eq, liveEnergy_eq, (Talk.run_bind_ok hcreate).2,
        (Talk.run_bind_ok hcreate).2, transcript_readAndDelete, transcript_readAndDelete,
        transcript_readPower_congr e _ uri other, readPower_state e _ uri other]

/-- Whether the power is looked for in a column of samples: a context is created that offers the
power there, and samples are received through it. -/
def Searches (e : Endpoint) (handler : Talk.Handler σ) (s : σ) (index : Nat)
    (samples : List Sample) : Prop :=
  ∃ context response, contextOf (created e handler s).1 = .ok context ∧
    OffersPower context index ∧
    (handler (.execute (e.get context.uri)) (created e handler s).2).1 = .ok response ∧
    HoldsSamples response samples

theorem liveEnergy_of_searches (uri : String) (h : Searches e handler s index samples) :
    ((liveEnergy e uri).run.run handler s).1 = readingIn uri index samples := by
  obtain ⟨context, response, hcontext, hoffers, hanswer, hsamples⟩ := h
  rw [(liveEnergy_of_ok uri hcontext).1, (readPower_of_some (metricIndex?_eq_some.mpr hoffers)).1,
    hanswer]
  show (Sample.ofResponse response >>= readingIn uri index) = _
  rw [ofResponse_eq_ok.mpr hsamples]
  rfl

/-- If the power is not looked for, what went wrong has nothing to do with the partition. -/
theorem liveEnergy_of_not_searches (uri other : String)
    (h : ∀ index samples, ¬ Searches e handler s index samples) :
    ((liveEnergy e uri).run.run handler s).1 = ((liveEnergy e other).run.run handler s).1 := by
  cases hcontext : contextOf (created e handler s).1 with
  | error failure => rw [(liveEnergy_of_error hcontext).1, (liveEnergy_of_error hcontext).1]
  | ok context =>
      rw [(liveEnergy_of_ok uri hcontext).1, (liveEnergy_of_ok other hcontext).1]
      cases hindex : context.metricIndex? usageGroup powerMetric with
      | none => rw [(readPower_of_none hindex).1, (readPower_of_none hindex).1]
      | some index =>
          rw [(readPower_of_some hindex).1, (readPower_of_some hindex).1]
          cases hanswer : (handler (.execute (e.get context.uri)) (created e handler s).2).1 with
          | error failure => rfl
          | ok response =>
              show (Sample.ofResponse response >>= _) = (Sample.ofResponse response >>= _)
              cases hsamples : Sample.ofResponse response with
              | error failure => rfl
              | ok samples =>
                  exact absurd ⟨context, response, hcontext, metricIndex?_eq_some.mp hindex,
                    hanswer, ofResponse_eq_ok.mp hsamples⟩ (h index samples)

/-- Two names of partitions give the same result if and only if, should the power be looked for, the
samples tell the same number for both. -/
theorem liveEnergy_eq_iff (hne : uri ≠ other) :
    ((liveEnergy e uri).run.run handler s).1 = ((liveEnergy e other).run.run handler s).1 ↔
      ∀ index samples, Searches e handler s index samples →
        ∃ watts, TellsPower samples uri index watts ∧ TellsPower samples other index watts := by
  constructor
  · intro h index samples hsearches
    rw [liveEnergy_of_searches uri hsearches, liveEnergy_of_searches other hsearches] at h
    exact (readingIn_eq_iff hne).mp h
  · intro h
    by_cases hsearches : ∃ index samples, Searches e handler s index samples
    · obtain ⟨index, samples, hsearches⟩ := hsearches
      rw [liveEnergy_of_searches uri hsearches, liveEnergy_of_searches other hsearches]
      exact (readingIn_eq_iff hne).mpr (h index samples hsearches)
    · exact liveEnergy_of_not_searches uri other
        fun index samples hsome => hsearches ⟨index, samples, hsome⟩

/-- If the samples name all their objects by URIs of the console, a name that is no such URI is not
found among them. -/
theorem liveEnergy_of_carries (hsearches : Searches e handler s index samples)
    (hcarries : ∀ sample ∈ samples, e.Carries sample.objectUri) (huri : ¬ e.Carries uri) :
    ((liveEnergy e uri).run.run handler s).1 =
      .error (.ofCause (.noPowerReading powerMetric uri)) := by
  rw [liveEnergy_of_searches uri hsearches, readingIn]
  cases hreading : reading? samples uri index with
  | none => rfl
  | some watts =>
      obtain ⟨sample, ⟨⟨-, hname, -⟩, before, after, rfl, -⟩, -⟩ := reading?_eq_some.mp hreading
      exact absurd (hname ▸ hcarries sample (List.mem_append_right _ List.mem_cons_self)) huri

/-- What comes of a reading of the present power if the partition is named by its path. -/
structure ComparesNames (e : Endpoint) (uri : String) (handler : Talk.Handler σ) (s : σ) :
    Prop where
  /-- The exchanges are those for the full URI. -/
  exchanges : transcript handler (liveEnergy e uri).run s =
    transcript handler (liveEnergy e (e.basePath ++ uri)).run s
  /-- The result is that for the full URI if and only if, should the power be looked for, the
  samples tell the same number for both names. -/
  result : ((liveEnergy e uri).run.run handler s).1 =
      ((liveEnergy e (e.basePath ++ uri)).run.run handler s).1 ↔
    ∀ index samples, Searches e handler s index samples → ∃ watts,
      TellsPower samples uri index watts ∧ TellsPower samples (e.basePath ++ uri) index watts
  /-- So there is no number if the samples name their objects the way the console does. -/
  missed : ∀ index samples, Searches e handler s index samples →
    (∀ sample ∈ samples, e.Carries sample.objectUri) →
      ((liveEnergy e uri).run.run handler s).1 =
        .error (.ofCause (.noPowerReading powerMetric uri))

end Partition

/-! ## Both names -/

/-- Whoever answers, it makes no difference to an operation whether its resource is named by its
path below the base path or by the full URI, with two exceptions. The present power is looked up
under the name as it is. And a single slash names the base path, but is lost when an operation puts
something behind it. -/
theorem names_interchangeable {e : Endpoint} (hbase : e.basePath ≠ "") {text : String}
    (htext : text.toList.head? ≠ some '/') (huri : ¬ e.Carries ("/" ++ text)) :
    (∀ {α : Type} (x : Addressed α), (text = "" → x.ending = "") →
      ¬ e.Carries ("/" ++ text ++ x.ending) →
        x.operate e ("/" ++ text) = x.operate e (e.basePath ++ ("/" ++ text))) ∧
    ∀ {σ : Type} (handler : Talk.Handler σ) (s : σ),
      Partition.ComparesNames e ("/" ++ text) handler s := by
  constructor
  · intro α x hending hcarries
    have hslash : (text ++ x.ending).toList.head? ≠ some '/' := by
      rw [String.toList_append, List.head?_append]
      cases hhead : text.toList.head? with
      | some c => rwa [hhead] at htext
      | none =>
          have hempty : text = "" := String.toList_eq_nil_iff.mp (List.head?_eq_none_iff.mp hhead)
          rw [hending hempty]
          exact nofun
    rw [String.append_assoc] at hcarries
    refine x.operate_congr ?_
    rw [String.append_assoc, String.append_assoc, String.append_assoc]
    exact (Endpoint.resourceUrl_full hbase hslash hcarries).symm
  · intro σ handler s
    have hne : "/" ++ text ≠ e.basePath ++ ("/" ++ text) := by
      intro heq
      have hlength := congrArg String.length heq
      rw [String.length_append e.basePath] at hlength
      exact hbase (String.length_eq_zero_iff.mp (by omega))
    exact {
      exchanges := Partition.transcript_liveEnergy_congr ..
      result := Partition.liveEnergy_eq_iff hne
      missed := fun _ _ hsearches hcarries =>
        Partition.liveEnergy_of_carries hsearches hcarries huri }

namespace Endpoint.Sample

/-- A console that measures a partition, and names it by its full URI. -/
def meter : Script :=
  let context := "\x7b\"metrics-context-uri\":\"/m\",\"metric-group-infos\":[" ++
    "\x7b\"group-name\":\"logical-partition-usage\",\"metric-infos\":[" ++
    "\x7b\"metric-name\":\"power-consumption-watts\",\"metric-type\":\"1\"\x7d]\x7d]\x7d"
  let report := "\"logical-partition-usage\"\n\"/api/partitions/1\"\n0\n7\n\n\n"
  .new [⟨.ok ⟨200, Utf8.encode context⟩, ⟨0⟩⟩, ⟨.ok ⟨200, Utf8.encode report⟩, ⟨0⟩⟩,
    ⟨.ok ⟨204, []⟩, ⟨0⟩⟩] none

end Endpoint.Sample

theorem names_interchangeable_start :
    Endpoint.Sample.apiEndpoint.basePath ≠ "" ∧ "partitions/1".toList.head? ≠ some '/' ∧
      ¬ Endpoint.Sample.apiEndpoint.Carries ("/" ++ "partitions/1") ∧
      ¬ Endpoint.Sample.apiEndpoint.Carries ("/" ++ "partitions/1" ++ "/operations/start") ∧
      Partition.start Endpoint.Sample.apiEndpoint "/partitions/1" =
        Partition.start Endpoint.Sample.apiEndpoint "/api/partitions/1" ∧
      Partition.ComparesNames Endpoint.Sample.apiEndpoint "/partitions/1" Script.handle
        Endpoint.Sample.meter := by
  have hbase : Endpoint.Sample.apiEndpoint.basePath ≠ "" := by decide +kernel
  have htext : "partitions/1".toList.head? ≠ some '/' := by decide +kernel
  have huri : ¬ Endpoint.Sample.apiEndpoint.Carries ("/" ++ "partitions/1") := by decide +kernel
  have hstart : ¬ Endpoint.Sample.apiEndpoint.Carries
      ("/" ++ "partitions/1" ++ "/operations/start") := by decide +kernel
  obtain ⟨hoperate, henergy⟩ := names_interchangeable hbase htext huri
  have h := hoperate .startPartition (fun hempty => absurd hempty (by decide)) hstart
  have hfull : Endpoint.Sample.apiEndpoint.basePath ++ ("/" ++ "partitions/1") =
      "/api/partitions/1" := by decide +kernel
  rw [hfull] at h
  exact ⟨hbase, htext, huri, hstart, h, henergy Script.handle Endpoint.Sample.meter⟩

/-- The full URI finds the power where the path does not. And a path that is a single slash loses
it, where the full URI keeps it. -/
theorem names_differ :
    Endpoint.Sample.apiEndpoint.basePath = "/api" ∧
      ((Partition.liveEnergy Endpoint.Sample.apiEndpoint "/partitions/1").run.run Script.handle
        Endpoint.Sample.meter).1 = .error (.ofCause
          (.noPowerReading Partition.powerMetric "/partitions/1")) ∧
      ((Partition.liveEnergy Endpoint.Sample.apiEndpoint "/api/partitions/1").run.run Script.handle
        Endpoint.Sample.meter).1 = .ok (.ofInt 7) ∧
      (Endpoint.Sample.apiEndpoint.resourceUrl ("/" ++ "/partitions")).path =
        .segments ["api", "partitions"] ∧
      (Endpoint.Sample.apiEndpoint.resourceUrl ("/api/" ++ "/partitions")).path =
        .segments ["api", "", "partitions"] := by
  decide +kernel

end HmcClient
