import MicrosoftDM.GetResults
import MicrosoftDM.CommandNumbers
import MicrosoftDM.ScopeGate
import MicrosoftDM.ObjectLimits
import MicrosoftDM.ReplySize
import MicrosoftDM.ResultOrigins
import MicrosoftDM.ClientEvents
import MicrosoftDM.DeviceValues
import MicrosoftDM.ChallengeResponse
import MicrosoftDM.RateRuns
import MicrosoftDM.EnrollmentRaces
import MicrosoftDM.PruneRaces
import MicrosoftDM.QueueAgreement
import MicrosoftDM.ObjectRoundTrip
import MicrosoftDM.BuiltCommands
import MicrosoftDM.AgentTokens
import MicrosoftDM.PushChannels
import MicrosoftDM.SchemaNames
import MicrosoftDM.SyncMLDecode
import MicrosoftDM.EnrollMessages
import MicrosoftDM.EnrollmentRuns
import MicrosoftDM.PeerKeys
import MicrosoftDM.DeviceFacts
import MicrosoftDM.Listings
import MicrosoftDM.StateTransactions
import MicrosoftDM.SchemaAddresses
import MicrosoftDM.SchemaValues
import MicrosoftDM.CertificateIssue
import MicrosoftDM.SchemaLiterals
