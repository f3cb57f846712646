import EspectralClient.Relay.LimitsRate
import EspectralClient.Relay.LimitsQuota
import EspectralClient.Engine.GameSessions
import EspectralClient.Engine.AgentRelease
import EspectralClient.Engine.NbtRoundTrip
import EspectralClient.Engine.NbtBounds
import EspectralClient.Engine.DestLock
import EspectralClient.Engine.VersionChain
import EspectralClient.Engine.AotFresh
import EspectralClient.Engine.AotQueue
import EspectralClient.Engine.RuntimeTiers
import EspectralClient.Grant.Agreement
import EspectralClient.Ruta.HandshakeGate
import EspectralClient.Ruta.WireAgreement
import EspectralClient.Engine.McpFraming
import EspectralClient.Engine.Fingerprint
import EspectralClient.Engine.InstanceList
import EspectralClient.Engine.Download
import EspectralClient.Menu.GeoIpAgreement
import EspectralClient.Menu.AgentBlocked
import EspectralClient.Menu.AgentRecorderRate
import EspectralClient.Menu.AgentCapture
import EspectralClient.EspectralId.Sessions
import EspectralClient.Engine.IdentitySignOut
import EspectralClient.App.LogView
import EspectralClient.Engine.ClientConfigPatch
import EspectralClient.Menu.ConfigAgreement
import EspectralClient.Engine.LaunchStatsKept
import EspectralClient.Menu.BridgeAuth
import EspectralClient.App.WardrobeSaves
import EspectralClient.App.LauncherCloseSafe
import EspectralClient.Menu.MediaChannel
import EspectralClient.Menu.MediaTrack
import EspectralClient.App.HandOver
import EspectralClient.Engine.GeoRefreshKept
import EspectralClient.Engine.VersionChangeSafe
import EspectralClient.Engine.GeoCodec
import EspectralClient.Engine.ConfigMemory
import EspectralClient.Engine.MrpackPaths
import EspectralClient.Engine.MrpackNames
import EspectralClient.Engine.ZiputilTotal
import EspectralClient.Menu.AgentRelayLate
import EspectralClient.Menu.AgentKicks
import EspectralClient.Engine.CosmeticsFiles
import EspectralClient.Engine.FfmpegOnce
import EspectralClient.EspectralId.RateMemory
import EspectralClient.Engine.IrisProperties
import EspectralClient.Ruta.ServerKeyCanonical
import EspectralClient.Ruta.Eligible
import EspectralClient.Engine.LogWatch
import EspectralClient.Engine.EnabledMods
import EspectralClient.Engine.TemurinInstall
import EspectralClient.Engine.OptionsTxt
import EspectralClient.App.Session
import EspectralClient.App.Hub
import EspectralClient.Engine.BackgroundMigration
import EspectralClient.Engine.DryRun
import EspectralClient.Menu.ConfigReload
import EspectralClient.Engine.SkinDecode
import EspectralClient.Engine.FileResults
import EspectralClient.Engine.DocumentsKept
import EspectralClient.Relay.Timestamps
import EspectralClient.Engine.FrameOrder
import EspectralClient.Engine.Placeholders
import EspectralClient.App.Router
import EspectralClient.App.EventPump
import EspectralClient.App.WardrobeEquip
import EspectralClient.Engine.DiscordIpc
import EspectralClient.Menu.AgentInput
import EspectralClient.Engine.MsaProfiles
import EspectralClient.Engine.DiscordAuth
import EspectralClient.Engine.DiscordFlows
