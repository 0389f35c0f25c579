import Feat.Database.CleanupSafety
import Feat.Database.QueryPaging
import Feat.Database.OwnChange
import Feat.Database.DriverTransparent
import Feat.Database.UpdatedOnce
import Feat.Messaging.Bindings
import Feat.Messaging.RoutingDelivery
import Feat.Agents.ResourceConfirm
import Feat.Agents.ClerkRemembered
import Feat.Agents.IntensiveStory
import Feat.Agencies.InterestServed
import Feat.Agencies.RetryingReleased
import Feat.Agencies.ContractOutcome
import Feat.Agencies.ContractNet
import Feat.Web.PipelineOrder
import Feat.Agents.SolverAgreement
import Feat.Agents.CacheConverges
import Feat.Agents.UpdatesPerformed
import Feat.Agents.NotificationsInOrder
import Feat.Agents.PartnersRemoved
import Feat.Web.PoolServes
import Feat.Web.FramingOrder
import Feat.Web.ServerHead
import Feat.Web.ClientAnswers
import Feat.Web.RenderingGuarded
import Feat.Agencies.RequestsAnswered
import Feat.Agents.DeathsForgotten
import Feat.Agents.OneFate
import Feat.Agents.NeighboursReleased
import Feat.Common.ReplayFaithful
import Feat.Common.PopOrder
import Feat.Common.QueueAccount
import Feat.Database.MergeOrder
import Feat.Database.FailedWrites
import Feat.Database.ViewPaging
import Feat.Agents.ResourceDelta
import Feat.Database.QueryValues
import Feat.Web.TunnelSame
import Feat.Agencies.JournalStored
import Feat.Database.MigrationPlan
import Feat.Database.Attachments
import Feat.Agencies.SharedStateWhole
import Feat.Messaging.Tunneling
import Feat.Agencies.ManagerCancel
import Feat.Common.Recovered
import Feat.Web.AddressReadBack
import Feat.Messaging.Incoming
import Feat.Agents.AlertDiscovery
import Feat.Agents.DnsMapping
import Feat.Models.Faults
import Feat.Web.NegotiatedBest
import Feat.Web.ResponseDecoded
import Feat.Agencies.HistoryIds
import Feat.Agencies.MigratedOnce
import Feat.Agencies.TaskOutcome
import Feat.Common.FiberMeaning
import Feat.Common.JsonReadBack
