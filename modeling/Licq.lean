import Licq.IniFile.Sections
import Licq.IniFile.Select
import Licq.IniFile.Runs
import Licq.Text.Decimal
import Licq.IniFile.Values
import Licq.IniFile.File
import Licq.ContactList.UserId
import Licq.ContactList.Owners
import Licq.IniFile.Leftover
import Licq.ContactList.UserList
import Licq.Wire.Words
import Licq.Icq.ClientCrypt
import Licq.Buffer.Basic
import Licq.Icq.DcSocket
import Licq.Buffer.Reading
import Licq.Buffer.Fields
import Licq.Icq.Packets
import Licq.Wire.Framing
import Licq.Icq.Chat.Basic
import Licq.Icq.Chat.Version6
import Licq.Icq.Chat.Frames
import Licq.Icq.Chat.KickVote
import Licq.ContactList.Events
import Licq.Daemon.Fifo
import Licq.Data.SortedMap
import Licq.ContactList.Groups
import Licq.Data.Steps
import Licq.Icq.Tlv
import Licq.ContactList.UserManager
import Licq.Daemon.MainLoop
import Licq.Daemon.Registry
import Licq.ContactList.Usprintf
import Licq.Daemon.OnEvent
import Licq.ContactList.AutoResponse
import Licq.IniFile.RoundTrip
import Licq.IniFile.KeyList
import Licq.ContactList.GroupFile
import Licq.Icq.Chat.Send
import Licq.Icq.Chat.Version2
import Licq.Icq.Chat.Commands
import Licq.Icq.Chat.Handshake
import Licq.Icq.Srv.Packet
import Licq.Icq.Srv.Roster
import Licq.Icq.Srv.ServerList
import Licq.Icq.Srv.ListChanges
import Licq.Icq.Srv.RosterReply
import Licq.Icq.Srv.ModifyUsers
import Licq.Icq.Events.Disposal
import Licq.Icq.Events.SendQueue
import Licq.Icq.Events.SendOrder
import Licq.Icq.OscarService
import Licq.Icq.SrvSocket
import Licq.Msn.Encoding
import Licq.Icq.Srv.Sids
import Licq.Icq.SplitFE
import Licq.Msn.Buffer
import Licq.Msn.Messages
import Licq.Msn.Reassembly
import Licq.Data.File
import Licq.Msn.DataEvent
import Licq.Msn.Switchboard
import Licq.Icq.FileTransfer
import Licq.History.Events
import Licq.History.Load
import Licq.History.RoundTrip
import Licq.Dbus.ObjectPath
import Licq.Plugin.Instances
import Licq.Plugin.Start
import Licq.Jabber.Plugin
import Licq.Msn.Signals
import Licq.Plugin.Answers
import Licq.Jabber.Requests
import Licq.Rms.Client
import Licq.ContactList.Membership
import Licq.ContactList.Pending
import Licq.QtGui.ContactGroup
import Licq.QtGui.ContactList
import Licq.Data.Numbering
import Licq.QtGui.Mode2Proxy
import Licq.QtGui.Mode2Mirror
import Licq.QtGui.Mode2Runs
import Licq.History.Written
import Licq.Rms.History
import Licq.Rms.ParseUser
import Licq.Net.Connect
import Licq.Net.HttpProxy
import Licq.ContactList.UserFiles
import Licq.Plugin.Lifecycle
import Licq.Icq.ReverseConnect
import Licq.Icq.Connections
import Licq.Daemon.ConfWriters
import Licq.Daemon.LicqConf
import Licq.ContactList.UserConf
import Licq.ContactList.UserRoundTrip
import Licq.Icq.ContactEvent
import Licq.Icq.TcpPacket
import Licq.Icq.Events.CancelById
import Licq.Icq.Srv.ExportGroups
import Licq.Msn.Base64
import Licq.Msn.Ssl
import Licq.Msn.Typing
import Licq.Msn.ServerSocket
import Licq.Msn.Payload
import Licq.Forwarder.Email
import Licq.Icq.TlvLimit
import Licq.Data.Ring
import Licq.QtGui.HistoryDlg
import Licq.AutoReply.Command
import Licq.Osd.Wrap
import Licq.Osd.Translate
import Licq.QtGui.HistoryView
import Licq.Icq.Srv.Acks
import Licq.QtGui.UserSendEvent
import Licq.Text.Expression
import Licq.Text.Markup
import Licq.QtGui.MLView
import Licq.QtGui.MLViewLinks
import Licq.QtGui.MLViewRun
import Licq.QtGui.MLViewText
import Licq.Text.LineBreaks
import Licq.ContactList.Birthday
import Licq.ContactList.UsprintfWidth
import Licq.Daemon.UserEvents
import Licq.Daemon.FifoArgv
import Licq.Daemon.Filter
import Licq.Daemon.FilterConf
import Licq.Daemon.UpgradeFilter
import Licq.IniFile.Whole
import Licq.Daemon.UpgradeUsers
import Licq.History.Total
import Licq.Icq.Srv.Online
import Licq.Text.IconvConvert
import Licq.IniFile.Listing
import Licq.Daemon.Hebrev
import Licq.Daemon.OnEventConf
import Licq.Data.Blocks
import Licq.Crypto.Md5
import Licq.QtGui.AutoAway
